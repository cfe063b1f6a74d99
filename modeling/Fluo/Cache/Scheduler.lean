import Fluo.Lib.Heap
import Fluo.Lib.Run
import Mathlib.Data.List.Nodup

/-!
# The store operation scheduler

Operations hang on the `exclusiveTail` of their submission. The reactions of
one promise run in the order they were registered; nothing else is said about
the order of jobs, so a run interleaves submissions and settlements freely.
-/

namespace Fluo.Cache

/-- Where a submitted operation is. An exclusive one that found others active
awaits those of its snapshot. -/
inductive OperationStage
  | queued
  | draining (snapshot : List Nat)
  | running
  | settled (ok : Bool)
  deriving DecidableEq, Repr

def OperationStage.isSettled : OperationStage → Bool
  | .settled _ => true
  | _ => false

/-- `after` is the exclusive operation whose tail the operation hangs on;
`released` says that its own tail is settled. -/
structure Operation where
  exclusive : Bool
  after : Option Nat
  stage : OperationStage
  released : Bool
  deriving DecidableEq, Repr

instance : Inhabited Operation := ⟨false, none, .settled true, false⟩

/-- What an operation has yet to go through. -/
def Operation.weight (x : Operation) : Nat :=
  (match x.stage with
    | .queued => 6
    | .draining _ => 5
    | .running => 4
    | .settled _ => 2) - (if x.released then 1 else 0)

/-- `exclusiveTail` is named by the operation it comes from, `none` at first. -/
structure StoreOperationScheduler where
  operations : Heap Operation
  exclusiveTail : Option Nat
  activeOperations : List Nat

inductive SchedulerEvent
  | run
  | runExclusive
  /-- The reaction of an operation on its tail; an ordinary operation may throw
  at once. -/
  | react (i : Nat) (throws : Bool)
  | settle (i : Nat) (ok : Bool)
  | forget (i : Nat)
  | drained (i : Nat)
  | release (i : Nat)
  deriving DecidableEq, Repr

namespace StoreOperationScheduler

variable (s : StoreOperationScheduler)

def stage (i : Nat) : OperationStage := (s.operations.get i).stage

def setStage (i : Nat) (stage : OperationStage) : StoreOperationScheduler :=
  { s with operations := s.operations.modify i fun x => { x with stage } }

def Settled (i : Nat) : Prop := (s.stage i).isSettled = true

instance (i : Nat) : Decidable (s.Settled i) := inferInstanceAs (Decidable (_ = true))

def Started (i : Nat) : Prop := s.stage i = .running ∨ s.Settled i

def tailReleased : Option Nat → Bool
  | none => true
  | some e => (s.operations.get e).released

/-- Every reaction registered earlier on the same tail has run. -/
def isNext (i : Nat) : Bool :=
  (List.range i).all fun j => (s.operations.get j).after ≠ (s.operations.get i).after || s.stage j ≠ .queued

def submit (exclusive : Bool) : StoreOperationScheduler :=
  { s with
    operations := s.operations.push ⟨exclusive, s.exclusiveTail, .queued, false⟩
    exclusiveTail := if exclusive then some s.operations.size else s.exclusiveTail }

/-- The `while` loop of `runExclusive` up to its next `await`, and the call
after it. -/
def drain (i : Nat) : StoreOperationScheduler :=
  if s.activeOperations = [] then s.setStage i .running else s.setStage i (.draining s.activeOperations)

def start (i : Nat) (throws : Bool) : StoreOperationScheduler :=
  if throws then s.setStage i (.settled false)
  else { s.setStage i .running with activeOperations := s.activeOperations ++ [i] }

def releaseTail (i : Nat) : StoreOperationScheduler :=
  { s with operations := s.operations.modify i fun x => { x with released := true } }

/-- `none` when the event is not enabled. What `Promise.all` awaits has been
deleted from the set before it resumes. -/
def step : SchedulerEvent → Option StoreOperationScheduler
  | .run => some (s.submit false)
  | .runExclusive => some (s.submit true)
  | .react i throws =>
    if i < s.operations.size ∧ s.stage i = .queued ∧ s.tailReleased (s.operations.get i).after = true ∧
        s.isNext i = true then
      some (if (s.operations.get i).exclusive then s.drain i else s.start i throws)
    else none
  | .settle i ok => if s.stage i = .running then some (s.setStage i (.settled ok)) else none
  | .forget i =>
    if i ∈ s.activeOperations ∧ s.Settled i then
      some { s with activeOperations := s.activeOperations.erase i }
    else none
  | .drained i =>
    match s.stage i with
    | .draining snapshot => if ∀ j ∈ snapshot, j ∉ s.activeOperations then some (s.drain i) else none
    | _ => none
  | .release i =>
    if i < s.operations.size ∧ (s.operations.get i).exclusive = true ∧ s.Settled i ∧
        (s.operations.get i).released = false then
      some (s.releaseTail i)
    else none

def initial : StoreOperationScheduler := ⟨Heap.empty, none, []⟩

/-- What submissions leave: everything else is a step of the scheduler or of an
operation. -/
def IsSubmission : SchedulerEvent → Prop
  | .run | .runExclusive => True
  | _ => False

/-! ## The invariant -/

/-- `tail` is the last exclusive operation before `i`. -/
def LastExclusive (i : Nat) : Option Nat → Prop
  | none => ∀ j < i, (s.operations.get j).exclusive = false
  | some e => e < i ∧ (s.operations.get e).exclusive = true ∧
    ∀ j, e < j → j < i → (s.operations.get j).exclusive = false

structure Ordered : Prop where
  tail : s.LastExclusive s.operations.size s.exclusiveTail
  hangs : ∀ i < s.operations.size, s.LastExclusive i (s.operations.get i).after
  unborn : ∀ i, s.operations.size ≤ i → s.operations.get i = default
  released : ∀ e, (s.operations.get e).released = true → (s.operations.get e).exclusive = true ∧ s.Settled e
  reacted : ∀ i < s.operations.size, s.stage i ≠ .queued →
    s.tailReleased (s.operations.get i).after = true ∧ s.isNext i = true
  active : ∀ i ∈ s.activeOperations, i < s.operations.size ∧ (s.operations.get i).exclusive = false ∧ s.Started i
  nodup : s.activeOperations.Nodup
  running : ∀ i, (s.operations.get i).exclusive = false → s.stage i = .running → i ∈ s.activeOperations
  draining : ∀ i snapshot, s.stage i = .draining snapshot →
    (s.operations.get i).exclusive = true ∧ ∀ j ∈ s.activeOperations, j ∈ snapshot
  before : ∀ i < s.operations.size, (s.operations.get i).exclusive = true → s.Started i → ∀ j < i, s.Settled j

variable {s}

/-! ## Which operations are through when another starts -/

theorem Ordered.unique {i j : Nat} (h : s.Ordered) (hi : i < s.operations.size) {e : Nat} (hj : j < i)
    (tail : (s.operations.get i).after = some e) (between : e < j) : (s.operations.get j).after = some e := by
  have hangs_i := h.hangs i hi
  rw [tail] at hangs_i
  obtain ⟨-, exclusive, none_between⟩ := hangs_i
  have hangs_j := h.hangs j (by omega)
  cases after : (s.operations.get j).after with
  | none =>
    rw [after] at hangs_j
    have := hangs_j e between
    rw [exclusive] at this
    cases this
  | some e' =>
    rw [after] at hangs_j
    obtain ⟨hlt, exclusive', none_between'⟩ := hangs_j
    by_cases lower : e' < e
    · have := none_between' e lower between
      rw [exclusive] at this
      cases this
    · by_cases higher : e < e'
      · have := none_between e' higher (by omega)
        rw [exclusive'] at this
        cases this
      · have : e' = e := by omega
        rw [this]

/-- What was submitted before an operation whose turn has come is settled, or
among the active ones. -/
theorem Ordered.earlier (h : s.Ordered) {i j : Nat} (hi : i < s.operations.size)
    (released : s.tailReleased (s.operations.get i).after = true) (next : s.isNext i = true) (hj : j < i) :
    s.Settled j ∨ j ∈ s.activeOperations := by
  -- An ordinary operation on the same tail has had its turn before.
  have same (tail : (s.operations.get j).after = (s.operations.get i).after)
      (ordinary : (s.operations.get j).exclusive = false) : s.Settled j ∨ j ∈ s.activeOperations := by
    have turn := List.all_eq_true.mp next j (List.mem_range.mpr hj)
    simp only [tail, ne_eq, not_true_eq_false, decide_false, Bool.false_or, decide_eq_true_eq] at turn
    cases stage : s.stage j with
    | queued => exact absurd stage turn
    | draining snapshot =>
      have := (h.draining j snapshot stage).1
      rw [ordinary] at this
      cases this
    | running => exact .inr (h.running j ordinary stage)
    | settled ok => exact .inl (by rw [Settled, stage]; rfl)
  have hangs := h.hangs i hi
  cases after : (s.operations.get i).after with
  | none =>
    rw [after] at hangs
    refine same ?_ (hangs j hj)
    have hangs_j := h.hangs j (by omega)
    rw [after]
    cases tail : (s.operations.get j).after with
    | none => rfl
    | some e =>
      rw [tail] at hangs_j
      obtain ⟨he, exclusive, -⟩ := hangs_j
      have := hangs e (by omega)
      rw [exclusive] at this
      cases this
  | some e =>
    rw [after] at hangs released
    obtain ⟨he, exclusive, none_between⟩ := hangs
    have settled := (h.released e released).2
    by_cases before : j < e
    · exact .inl (h.before e (by omega) exclusive (.inr settled) j before)
    · by_cases same_op : j = e
      · exact .inl (same_op ▸ settled)
      · have between : e < j := by omega
        exact same (by rw [after]; exact h.unique hi hj after between) (none_between j between hj)

/-- After an exclusive operation nothing gets its turn before it is settled. -/
theorem Ordered.later (h : s.Ordered) {i j : Nat} (exclusive : (s.operations.get i).exclusive = true)
    (hij : i < j) (hj : j < s.operations.size) (released : s.tailReleased (s.operations.get j).after = true) :
    s.Settled i := by
  have hangs := h.hangs j hj
  cases after : (s.operations.get j).after with
  | none =>
    rw [after] at hangs
    have := hangs i hij
    rw [exclusive] at this
    cases this
  | some e =>
    rw [after] at hangs released
    obtain ⟨he, exclusive', none_between⟩ := hangs
    have settled := (h.released e released).2
    by_cases before : i < e
    · exact h.before e (by omega) exclusive' (.inr settled) i before
    · by_cases same : i = e
      · exact same ▸ settled
      · have := none_between i (by omega) hij
        rw [exclusive] at this
        cases this

/-! ## The invariant is kept -/

theorem stage_setStage (i : Nat) (x : OperationStage) (j : Nat) :
    (s.setStage i x).stage j = if j = i then x else s.stage j := by
  simp only [stage, setStage, Heap.get_modify]
  split <;> rfl

theorem setStage_exclusive (i : Nat) (x : OperationStage) (j : Nat) :
    ((s.setStage i x).operations.get j).exclusive = (s.operations.get j).exclusive :=
  Heap.get_modify_proj s.operations i (fun y => { y with stage := x }) Operation.exclusive rfl j

theorem setStage_after (i : Nat) (x : OperationStage) (j : Nat) :
    ((s.setStage i x).operations.get j).after = (s.operations.get j).after :=
  Heap.get_modify_proj s.operations i (fun y => { y with stage := x }) Operation.after rfl j

theorem setStage_released (i : Nat) (x : OperationStage) (j : Nat) :
    ((s.setStage i x).operations.get j).released = (s.operations.get j).released :=
  Heap.get_modify_proj s.operations i (fun y => { y with stage := x }) Operation.released rfl j

theorem Ordered.initial : Ordered initial where
  tail j hj := absurd hj (Nat.not_lt_zero j)
  hangs i hi := absurd hi (Nat.not_lt_zero i)
  unborn i _ := rfl
  released e he := by cases he
  reacted i hi := absurd hi (Nat.not_lt_zero i)
  active i hi := by cases hi
  nodup := List.nodup_nil
  running i _ hi := by cases hi
  draining i snapshot hi := by cases hi
  before i hi := absurd hi (Nat.not_lt_zero i)

theorem Ordered.submit (h : s.Ordered) (exclusive : Bool) : (s.submit exclusive).Ordered := by
  have new : (s.submit exclusive).operations.get s.operations.size =
      ⟨exclusive, s.exclusiveTail, .queued, false⟩ := Heap.get_push_self _ _
  have other : ∀ i, i ≠ s.operations.size → (s.submit exclusive).operations.get i = s.operations.get i :=
    fun i hi => if_neg hi
  have old : ∀ i < s.operations.size, (s.submit exclusive).operations.get i = s.operations.get i :=
    fun i hi => other i (Nat.ne_of_lt hi)
  have size : (s.submit exclusive).operations.size = s.operations.size + 1 := rfl
  have unborn := h.unborn s.operations.size (Nat.le_refl _)
  have last (i : Nat) (hi : i ≤ s.operations.size) (tail : Option Nat) (hl : s.LastExclusive i tail) :
      (s.submit exclusive).LastExclusive i tail := by
    cases tail with
    | none => intro j hj; rw [old j (by omega)]; exact hl j hj
    | some e =>
      obtain ⟨he, hx, none_between⟩ := hl
      refine ⟨he, by rw [old e (by omega)]; exact hx, fun j hej hj => ?_⟩
      rw [old j (by omega)]
      exact none_between j hej hj
  have stage (i : Nat) (hi : i ≠ s.operations.size) : (s.submit exclusive).stage i = s.stage i := by
    rw [StoreOperationScheduler.stage, other i hi]
    rfl
  have settled (i : Nat) (hi : s.Settled i) (hlt : i < s.operations.size) : (s.submit exclusive).Settled i := by
    rw [Settled, stage i (Nat.ne_of_lt hlt)]
    exact hi
  have idle : ¬ (s.submit exclusive).Started s.operations.size := by
    rintro (hr | hs)
    · rw [StoreOperationScheduler.stage, new] at hr; cases hr
    · rw [Settled, StoreOperationScheduler.stage, new] at hs; cases hs
  constructor
  · rw [size]
    change (s.submit exclusive).LastExclusive _ (if exclusive then some s.operations.size else s.exclusiveTail)
    cases exclusive with
    | true =>
      refine ⟨Nat.lt_succ_self _, by rw [new], fun j hlt hj => ?_⟩
      omega
    | false =>
      have tail := last s.operations.size (Nat.le_refl _) _ h.tail
      simp only [Bool.false_eq_true, ↓reduceIte]
      cases e : s.exclusiveTail with
      | none =>
        rw [e] at tail
        intro j hj
        by_cases hn : j = s.operations.size
        · rw [hn, new]
        · exact tail j (by omega)
      | some x =>
        rw [e] at tail
        refine ⟨by have := tail.1; omega, tail.2.1, fun j hlt hj => ?_⟩
        by_cases hn : j = s.operations.size
        · rw [hn, new]
        · exact tail.2.2 j hlt (by omega)
  · intro i hi
    rw [size] at hi
    by_cases e : i = s.operations.size
    · rw [e, new]
      exact last _ (Nat.le_refl _) _ h.tail
    · rw [old i (by omega)]
      exact last i (by omega) _ (h.hangs i (by omega))
  · intro i hi
    rw [size] at hi
    rw [other i (by omega)]
    exact h.unborn i (by omega)
  · intro e he
    by_cases hn : e = s.operations.size
    · rw [hn, new] at he; cases he
    · rw [other e hn] at he ⊢
      obtain ⟨hx, hs⟩ := h.released e he
      exact ⟨hx, by rw [Settled, stage e hn]; exact hs⟩
  · intro i hi hq
    rw [size] at hi
    by_cases hn : i = s.operations.size
    · rw [hn, StoreOperationScheduler.stage, new] at hq
      exact absurd rfl hq
    · have hlt : i < s.operations.size := by omega
      rw [stage i hn] at hq
      obtain ⟨released, next⟩ := h.reacted i hlt hq
      have hangs := h.hangs i hlt
      rw [old i hlt]
      constructor
      · cases after : (s.operations.get i).after with
        | none => rfl
        | some e =>
          rw [after] at released hangs
          change ((s.submit exclusive).operations.get e).released = true
          rw [old e (by have := hangs.1; omega)]
          exact released
      · refine List.all_eq_true.mpr fun j hj => ?_
        have hj' := List.mem_range.mp hj
        have := List.all_eq_true.mp next j hj
        rw [old i hlt, old j (by omega), stage j (by omega)]
        exact this
  · intro i hi
    obtain ⟨hlt, ordinary, started_i⟩ := h.active i hi
    rw [size, old i hlt]
    refine ⟨by omega, ordinary, ?_⟩
    rw [Started, Settled, stage i (Nat.ne_of_lt hlt)]
    exact started_i
  · exact h.nodup
  · intro i ordinary running
    by_cases hn : i = s.operations.size
    · rw [hn, StoreOperationScheduler.stage, new] at running; cases running
    · rw [other i hn] at ordinary
      rw [stage i hn] at running
      exact h.running i ordinary running
  · intro i snapshot hd
    by_cases hn : i = s.operations.size
    · rw [hn, StoreOperationScheduler.stage, new] at hd; cases hd
    · rw [stage i hn] at hd
      rw [other i hn]
      exact h.draining i snapshot hd
  · intro i hi hx hs j hj
    rw [size] at hi
    by_cases hn : i = s.operations.size
    · rw [hn] at hs
      exact absurd hs idle
    · rw [old i (by omega)] at hx
      rw [Started, Settled, stage i hn] at hs
      exact settled j (h.before i (by omega) hx hs j hj) (by omega)

/-- An operation that has its turn goes on to another stage, and is active when
it is an ordinary one that runs. -/
theorem Ordered.advance (h : s.Ordered) {i : Nat} (hi : i < s.operations.size) {x : OperationStage}
    (active : List Nat) (released : s.tailReleased (s.operations.get i).after = true)
    (next : s.isNext i = true) (open_ : ¬ s.Settled i) (moved : x ≠ .queued)
    (sub : ∀ j ∈ active, j ∈ s.activeOperations ∨
      j = i ∧ (s.operations.get i).exclusive = false ∧ ∀ e < s.operations.size, ∀ l, s.stage e ≠ .draining l)
    (keep : ∀ j ∈ s.activeOperations, j ∈ active) (nodup : active.Nodup)
    (own : (s.operations.get i).exclusive = false → (i ∈ active → x = .running ∨ x.isSettled = true) ∧
      (x = .running → i ∈ active))
    (drains : ∀ l, x = .draining l → (s.operations.get i).exclusive = true ∧ ∀ j ∈ active, j ∈ l)
    (starts : (s.operations.get i).exclusive = true → x = .running ∨ x.isSettled = true → ∀ j < i, s.Settled j) :
    Ordered { s.setStage i x with activeOperations := active } := by
  have stage (j : Nat) : stage { s.setStage i x with activeOperations := active } j =
      if j = i then x else s.stage j := stage_setStage i x j
  have exclusive := setStage_exclusive (s := s) i x
  have after := setStage_after (s := s) i x
  have released' := setStage_released (s := s) i x
  have last (j : Nat) (tail : Option Nat) (hl : s.LastExclusive j tail) :
      LastExclusive { s.setStage i x with activeOperations := active } j tail := by
    cases tail with
    | none => intro m hm; exact (exclusive m).trans (hl m hm)
    | some e => exact ⟨hl.1, (exclusive e).trans hl.2.1, fun m he hm => (exclusive m).trans (hl.2.2 m he hm)⟩
  have settled (j : Nat) (hj : s.Settled j) :
      Settled { s.setStage i x with activeOperations := active } j := by
    have other : j ≠ i := fun e => open_ (e ▸ hj)
    rw [Settled, stage, if_neg other]
    exact hj
  constructor
  · exact last _ _ h.tail
  · intro j hj
    change LastExclusive _ j ((s.setStage i x).operations.get j).after
    rw [after]
    exact last j _ (h.hangs j hj)
  · intro j hj
    have hj : s.operations.size ≤ j := hj
    have other : j ≠ i := by omega
    exact (s.operations.get_modify_ne (fun y => { y with stage := x }) other).trans (h.unborn j hj)
  · intro e he
    have he : ((s.setStage i x).operations.get e).released = true := he
    rw [released'] at he
    obtain ⟨hx, hs⟩ := h.released e he
    exact ⟨(exclusive e).trans hx, settled e hs⟩
  · intro j hj hq
    have hj : j < s.operations.size := hj
    rw [stage] at hq
    have turn : s.tailReleased (s.operations.get j).after = true ∧ s.isNext j = true := by
      by_cases e : j = i
      · rw [e]; exact ⟨released, next⟩
      · rw [if_neg e] at hq; exact h.reacted j hj hq
    change tailReleased _ ((s.setStage i x).operations.get j).after = true ∧ _
    rw [after]
    constructor
    · cases hat : (s.operations.get j).after with
      | none => rfl
      | some e =>
        have := turn.1
        rw [hat] at this
        exact (released' e).trans this
    · refine List.all_eq_true.mpr fun m hm => ?_
      have := List.all_eq_true.mp turn.2 m hm
      change (((s.setStage i x).operations.get m).after ≠ ((s.setStage i x).operations.get j).after || _) = true
      rw [after, after, stage]
      by_cases e : m = i
      · rw [if_pos e]
        simp [moved]
      · rw [if_neg e]
        exact this
  · intro j hj
    change j < s.operations.size ∧ ((s.setStage i x).operations.get j).exclusive = false ∧ _
    rw [exclusive, Started, Settled, stage]
    rcases sub j hj with hj' | ⟨rfl, ordinary, -⟩
    · obtain ⟨hlt, ordinary, started⟩ := h.active j hj'
      refine ⟨hlt, ordinary, ?_⟩
      by_cases e : j = i
      · rw [if_pos e]
        exact (own (e ▸ ordinary)).1 (e ▸ hj)
      · rw [if_neg e]
        exact started
    · rw [if_pos rfl]
      exact ⟨hi, ordinary, (own ordinary).1 hj⟩
  · exact nodup
  · intro j ordinary running
    have ordinary := (exclusive j).symm.trans ordinary
    rw [stage] at running
    by_cases e : j = i
    · rw [if_pos e] at running
      exact e ▸ (own (e ▸ ordinary)).2 running
    · rw [if_neg e] at running
      exact keep j (h.running j ordinary running)
  · intro d l hd
    rw [stage] at hd
    change ((s.setStage i x).operations.get d).exclusive = true ∧ _
    rw [exclusive]
    by_cases e : d = i
    · rw [if_pos e] at hd
      rw [e]
      exact drains l hd
    · rw [if_neg e] at hd
      obtain ⟨hx, hl⟩ := h.draining d l hd
      refine ⟨hx, fun j hj => ?_⟩
      rcases sub j hj with hj | ⟨-, -, none_drains⟩
      · exact hl j hj
      · have hlt : d < s.operations.size := by
          by_contra hge
          rw [StoreOperationScheduler.stage, h.unborn d (by omega)] at hd
          cases hd
        exact absurd hd (none_drains d hlt l)
  · intro j hj hx hs m hm
    have hx := (exclusive j).symm.trans hx
    rw [Started, Settled, stage] at hs
    by_cases e : j = i
    · rw [if_pos e] at hs
      rw [e] at hx hm
      exact settled m (starts hx hs m hm)
    · rw [if_neg e] at hs
      exact settled m (h.before j hj hx hs m hm)

/-- While an operation waits for its turn no exclusive one drains: the earlier
would have been waited for, the later would wait. -/
theorem Ordered.none_draining (h : s.Ordered) {i : Nat} (hi : i < s.operations.size) (queued : s.stage i = .queued)
    (released : s.tailReleased (s.operations.get i).after = true) (e : Nat)
    (he : e < s.operations.size) (l : List Nat) : s.stage e ≠ .draining l := by
  intro draining
  have exclusive := (h.draining e l draining).1
  have turn := h.reacted e he (by rw [draining]; nofun)
  by_cases before : e < i
  · have settled := h.later exclusive before hi released
    rw [Settled, draining] at settled
    cases settled
  · by_cases same : e = i
    · rw [same, queued] at draining
      cases draining
    · rcases h.earlier he turn.1 turn.2 (show i < e by omega) with settled | active
      · rw [Settled, queued] at settled
        cases settled
      · rcases (h.active i active).2.2 with running | settled
        · rw [queued] at running; cases running
        · rw [Settled, queued] at settled; cases settled

theorem Ordered.drain (h : s.Ordered) {i : Nat} (hi : i < s.operations.size)
    (exclusive : (s.operations.get i).exclusive = true)
    (released : s.tailReleased (s.operations.get i).after = true) (next : s.isNext i = true)
    (open_ : ¬ s.Settled i) : (s.drain i).Ordered := by
  have ordinary : (s.operations.get i).exclusive ≠ false := by rw [exclusive]; nofun
  unfold StoreOperationScheduler.drain
  split
  · rename_i idle
    refine h.advance hi s.activeOperations released next open_ nofun (fun j hj => .inl hj)
      (fun j hj => hj) h.nodup (fun o => absurd o ordinary) nofun fun _ _ j hj => ?_
    rcases h.earlier hi released next hj with settled | active
    · exact settled
    · rw [idle] at active
      cases active
  · exact h.advance hi s.activeOperations released next open_ nofun (fun j hj => .inl hj)
      (fun j hj => hj) h.nodup (fun o => absurd o ordinary)
      (fun l e => by cases e; exact ⟨exclusive, fun j hj => hj⟩) (fun _ started => by rcases started with e | e <;> cases e)

theorem Ordered.start (h : s.Ordered) {i : Nat} (hi : i < s.operations.size) (queued : s.stage i = .queued)
    (ordinary : (s.operations.get i).exclusive = false)
    (released : s.tailReleased (s.operations.get i).after = true) (next : s.isNext i = true) (throws : Bool) :
    (s.start i throws).Ordered := by
  have open_ : ¬ s.Settled i := by rw [Settled, queued]; nofun
  have inactive : i ∉ s.activeOperations := by
    intro hmem
    rcases (h.active i hmem).2.2 with running | settled
    · rw [queued] at running; cases running
    · exact open_ settled
  have exclusive : (s.operations.get i).exclusive ≠ true := by rw [ordinary]; nofun
  unfold StoreOperationScheduler.start
  split
  · exact h.advance hi s.activeOperations released next open_ nofun (fun j hj => .inl hj)
      (fun j hj => hj) h.nodup (fun _ => ⟨fun hmem => absurd hmem inactive, nofun⟩) nofun
      (fun x => absurd x exclusive)
  · refine h.advance hi _ released next open_ nofun (fun j hj => ?_) (fun j hj => List.mem_append_left _ hj) ?_
      (fun _ => ⟨fun _ => .inl rfl, fun _ => List.mem_append_right _ (List.mem_singleton_self i)⟩) nofun
      (fun x => absurd x exclusive)
    · rcases List.mem_append.mp hj with hj | hj
      · exact .inl hj
      · exact .inr ⟨List.mem_singleton.mp hj, ordinary, h.none_draining hi queued released⟩
    · exact List.nodup_append.mpr ⟨h.nodup, List.nodup_singleton i, fun a ha b hb e => inactive (by
        rw [List.mem_singleton.mp hb] at e; exact e ▸ ha)⟩

theorem Ordered.settle (h : s.Ordered) {i : Nat} (running : s.stage i = .running) (ok : Bool) :
    (s.setStage i (.settled ok)).Ordered := by
  have hi : i < s.operations.size := by
    by_contra hge
    rw [stage, h.unborn i (by omega)] at running
    cases running
  obtain ⟨released, next⟩ := h.reacted i hi (by rw [running]; nofun)
  exact h.advance hi s.activeOperations released next (by rw [Settled, running]; nofun) nofun
    (fun j hj => .inl hj) (fun j hj => hj) h.nodup (fun _ => ⟨fun _ => .inr rfl, nofun⟩) nofun
    (fun x _ => h.before i hi x (.inl running))

theorem Ordered.forget (h : s.Ordered) {i : Nat} (settled : s.Settled i) :
    Ordered { s with activeOperations := s.activeOperations.erase i } where
  tail := h.tail
  hangs := h.hangs
  unborn := h.unborn
  released := h.released
  reacted := h.reacted
  active j hj := h.active j (List.mem_of_mem_erase hj)
  nodup := h.nodup.erase i
  running j ordinary running := by
    have other : j ≠ i := by
      rintro rfl
      have running : s.stage j = .running := running
      rw [Settled, running] at settled
      cases settled
    exact (List.mem_erase_of_ne other).mpr (h.running j ordinary running)
  draining e l hd := ⟨(h.draining e l hd).1, fun j hj => (h.draining e l hd).2 j (List.mem_of_mem_erase hj)⟩
  before := h.before

theorem Ordered.release (h : s.Ordered) {i : Nat} (exclusive : (s.operations.get i).exclusive = true)
    (settled : s.Settled i) : (s.releaseTail i).Ordered := by
  have stage (j : Nat) : (s.releaseTail i).stage j = s.stage j :=
    s.operations.get_modify_proj i (fun x => { x with released := true }) Operation.stage rfl j
  have after (j : Nat) : ((s.releaseTail i).operations.get j).after = (s.operations.get j).after :=
    s.operations.get_modify_proj i (fun x => { x with released := true }) Operation.after rfl j
  have exclusive' (j : Nat) : ((s.releaseTail i).operations.get j).exclusive = (s.operations.get j).exclusive :=
    s.operations.get_modify_proj i (fun x => { x with released := true }) Operation.exclusive rfl j
  have other (j : Nat) (hj : j ≠ i) : (s.releaseTail i).operations.get j = s.operations.get j :=
    s.operations.get_modify_ne (fun x => { x with released := true }) hj
  have kept (j : Nat) (hj : (s.operations.get j).released = true) :
      ((s.releaseTail i).operations.get j).released = true := by
    by_cases e : j = i
    · rw [e]
      exact congrArg Operation.released (s.operations.get_modify_self i fun x => { x with released := true })
    · rw [other j e]
      exact hj
  have last (j : Nat) (tail : Option Nat) (hl : s.LastExclusive j tail) :
      (s.releaseTail i).LastExclusive j tail := by
    cases tail with
    | none => intro m hm; exact (exclusive' m).trans (hl m hm)
    | some e => exact ⟨hl.1, (exclusive' e).trans hl.2.1, fun m he hm => (exclusive' m).trans (hl.2.2 m he hm)⟩
  have settles (j : Nat) : (s.releaseTail i).Settled j ↔ s.Settled j := by rw [Settled, stage]; rfl
  have started (j : Nat) : (s.releaseTail i).Started j ↔ s.Started j := by rw [Started, settles, stage]; rfl
  constructor
  · exact last _ _ h.tail
  · intro j hj
    rw [after]
    exact last j _ (h.hangs j hj)
  · intro j hj
    have unborn := h.unborn j hj
    have : j ≠ i := by
      rintro rfl
      rw [unborn] at exclusive
      cases exclusive
    rw [other j this]
    exact unborn
  · intro e he
    rw [settles, exclusive']
    by_cases same : e = i
    · rw [same]; exact ⟨exclusive, settled⟩
    · rw [other e same] at he
      exact h.released e he
  · intro j hj hq
    rw [stage] at hq
    obtain ⟨released, next⟩ := h.reacted j hj hq
    rw [after]
    constructor
    · cases tail : (s.operations.get j).after with
      | none => rfl
      | some e =>
        rw [tail] at released
        exact kept e released
    · refine List.all_eq_true.mpr fun m hm => ?_
      rw [after, after, stage]
      exact List.all_eq_true.mp next m hm
  · intro j hj
    rw [exclusive', started]
    exact h.active j hj
  · exact h.nodup
  · intro j
    rw [exclusive', stage]
    exact h.running j
  · intro e l
    rw [exclusive', stage]
    exact h.draining e l
  · intro j hj
    rw [exclusive', started]
    intro hx hs m hm
    exact (settles m).mpr (h.before j hj hx hs m hm)

theorem Ordered.step {e : SchedulerEvent} {t : StoreOperationScheduler} (h : s.Ordered)
    (hs : s.step e = some t) : t.Ordered := by
  cases e with
  | run => cases hs; exact h.submit false
  | runExclusive => cases hs; exact h.submit true
  | react i throws =>
    simp only [StoreOperationScheduler.step, Option.ite_none_right_eq_some, Option.some.injEq] at hs
    obtain ⟨⟨hi, queued, released, next⟩, rfl⟩ := hs
    split
    · rename_i exclusive
      exact h.drain hi exclusive released next (by rw [Settled, queued]; nofun)
    · rename_i ordinary
      exact h.start hi queued (by simpa using ordinary) released next throws
  | settle i ok =>
    simp only [StoreOperationScheduler.step, Option.ite_none_right_eq_some, Option.some.injEq] at hs
    obtain ⟨running, rfl⟩ := hs
    exact h.settle running ok
  | forget i =>
    simp only [StoreOperationScheduler.step, Option.ite_none_right_eq_some, Option.some.injEq] at hs
    obtain ⟨⟨-, settled⟩, rfl⟩ := hs
    exact h.forget settled
  | drained i =>
    simp only [StoreOperationScheduler.step] at hs
    split at hs
    · rename_i snapshot draining
      simp only [Option.ite_none_right_eq_some, Option.some.injEq] at hs
      obtain ⟨-, rfl⟩ := hs
      have hi : i < s.operations.size := by
        by_contra hge
        rw [stage, h.unborn i (by omega)] at draining
        cases draining
      obtain ⟨released, next⟩ := h.reacted i hi (by rw [draining]; nofun)
      exact h.drain hi (h.draining i snapshot draining).1 released next (by rw [Settled, draining]; nofun)
    · cases hs
  | release i =>
    simp only [StoreOperationScheduler.step, Option.ite_none_right_eq_some, Option.some.injEq] at hs
    obtain ⟨⟨-, exclusive, settled, -⟩, rfl⟩ := hs
    exact h.release exclusive settled

/-! ## Every operation gets its turn -/

def work (s : StoreOperationScheduler) : Nat := s.operations.total Operation.weight + s.activeOperations.length

theorem weight_setStage {i : Nat} (hi : i < s.operations.size) (x : OperationStage) :
    (s.setStage i x).operations.total Operation.weight + (s.operations.get i).weight =
      s.operations.total Operation.weight + { s.operations.get i with stage := x }.weight :=
  s.operations.total_set Operation.weight _ hi

theorem Ordered.work_lt (h : s.Ordered) {e : SchedulerEvent} {t : StoreOperationScheduler}
    (internal : ¬ IsSubmission e) (hs : s.step e = some t) : t.work < s.work := by
  have born (i : Nat) (hi : ¬ s.Settled i) : i < s.operations.size := by
    by_contra hge
    refine hi ?_
    rw [Settled, stage, h.unborn i (by omega)]
    rfl
  have unreleased (i : Nat) (hi : ¬ s.Settled i) : (s.operations.get i).released = false := by
    cases released : (s.operations.get i).released with
    | false => rfl
    | true => exact absurd (h.released i released).2 hi
  have drains (i : Nat) (hi : ¬ s.Settled i) (after : s.activeOperations = [] ∨ s.stage i = .queued)
      (waits : s.stage i = .queued ∨ ∃ l, s.stage i = .draining l) : (s.drain i).work < s.work := by
    have released := unreleased i hi
    unfold StoreOperationScheduler.drain
    split
    · have total := weight_setStage (born i hi) .running
      change (s.setStage i .running).operations.total Operation.weight + s.activeOperations.length < _
      rcases waits with e | ⟨l, e⟩ <;> rw [stage] at e <;>
        simp only [Operation.weight, e, released, Bool.false_eq_true, ↓reduceIte] at total <;>
        simp only [work] at total ⊢ <;> omega
    · rename_i busy
      have queued : s.stage i = .queued := by
        rcases after with idle | queued
        · exact absurd idle busy
        · exact queued
      have total := weight_setStage (born i hi) (.draining s.activeOperations)
      change (s.setStage i (.draining s.activeOperations)).operations.total Operation.weight +
        s.activeOperations.length < _
      rw [stage] at queued
      simp only [Operation.weight, queued, released, Bool.false_eq_true, ↓reduceIte] at total
      simp only [work] at total ⊢
      omega
  cases e with
  | run => exact absurd trivial internal
  | runExclusive => exact absurd trivial internal
  | react i throws =>
    simp only [StoreOperationScheduler.step, Option.ite_none_right_eq_some, Option.some.injEq] at hs
    obtain ⟨⟨hi, queued, -, -⟩, rfl⟩ := hs
    have open_ : ¬ s.Settled i := by rw [Settled, queued]; nofun
    split
    · exact drains i open_ (.inr queued) (.inl queued)
    · have released := unreleased i open_
      rw [stage] at queued
      unfold StoreOperationScheduler.start
      split
      · have total := weight_setStage hi (.settled false)
        change (s.setStage i (.settled false)).operations.total Operation.weight + s.activeOperations.length < _
        simp only [Operation.weight, queued, released, Bool.false_eq_true, ↓reduceIte] at total
        simp only [work] at total ⊢
        omega
      · have total := weight_setStage hi .running
        change (s.setStage i .running).operations.total Operation.weight + (s.activeOperations ++ [i]).length < _
        simp only [Operation.weight, queued, released, Bool.false_eq_true, ↓reduceIte] at total
        simp only [work, List.length_append, List.length_singleton] at total ⊢
        omega
  | settle i ok =>
    simp only [StoreOperationScheduler.step, Option.ite_none_right_eq_some, Option.some.injEq] at hs
    obtain ⟨running, rfl⟩ := hs
    have open_ : ¬ s.Settled i := by rw [Settled, running]; nofun
    have released := unreleased i open_
    have total := weight_setStage (born i open_) (.settled ok)
    rw [stage] at running
    change (s.setStage i (.settled ok)).operations.total Operation.weight + s.activeOperations.length < _
    simp only [Operation.weight, running, released, Bool.false_eq_true, ↓reduceIte] at total
    simp only [work] at total ⊢
    omega
  | forget i =>
    simp only [StoreOperationScheduler.step, Option.ite_none_right_eq_some, Option.some.injEq] at hs
    obtain ⟨⟨hmem, -⟩, rfl⟩ := hs
    have shorter := List.length_erase_of_mem hmem
    have pos := List.length_pos_of_mem hmem
    change s.operations.total Operation.weight + (s.activeOperations.erase i).length <
      s.operations.total Operation.weight + s.activeOperations.length
    omega
  | drained i =>
    simp only [StoreOperationScheduler.step] at hs
    split at hs
    · rename_i snapshot draining
      simp only [Option.ite_none_right_eq_some, Option.some.injEq] at hs
      obtain ⟨gone, rfl⟩ := hs
      have idle : s.activeOperations = [] := by
        refine List.eq_nil_iff_forall_not_mem.mpr fun j hj => ?_
        exact gone j ((h.draining i snapshot draining).2 j hj) hj
      exact drains i (by rw [Settled, draining]; nofun) (.inl idle) (.inr ⟨snapshot, draining⟩)
    · cases hs
  | release i =>
    simp only [StoreOperationScheduler.step, Option.ite_none_right_eq_some, Option.some.injEq] at hs
    obtain ⟨⟨hi, -, settled, released⟩, rfl⟩ := hs
    let x : Operation := { s.operations.get i with released := true }
    have total : (s.operations.set i x).total Operation.weight + (s.operations.get i).weight =
        s.operations.total Operation.weight + x.weight := s.operations.total_set Operation.weight x hi
    change (s.operations.set i x).total Operation.weight + s.activeOperations.length <
      s.operations.total Operation.weight + s.activeOperations.length
    have lighter : x.weight < (s.operations.get i).weight := by
      unfold Settled stage OperationStage.isSettled at settled
      split at settled
      · rename_i ok stage
        simp only [x, Operation.weight, stage, released, Bool.false_eq_true, ↓reduceIte]
        omega
      · cases settled
    omega

/-- While some operation is not settled, one runs or the scheduler has a step
to do. -/
theorem Ordered.proceeds (h : s.Ordered) (idle : ∀ i, s.stage i ≠ .running) {i : Nat} (open_ : ¬ s.Settled i) :
    ∃ e t, ¬ IsSubmission e ∧ (∀ j ok, e ≠ .settle j ok) ∧ s.step e = some t := by
  induction i using Nat.strongRecOn with
  | ind i ih =>
    by_cases earlier : ∃ j < i, ¬ s.Settled j
    · obtain ⟨j, hj, open_j⟩ := earlier
      exact ih j hj open_j
    have earlier (j : Nat) (hj : j < i) : s.Settled j := by
      by_contra open_j
      exact earlier ⟨j, hj, open_j⟩
    have hi : i < s.operations.size := by
      by_contra hge
      refine open_ ?_
      rw [Settled, stage, h.unborn i (by omega)]
      rfl
    cases stage : s.stage i with
    | running => exact absurd stage (idle i)
    | settled ok => exact absurd (by rw [Settled, stage]; rfl) open_
    | draining snapshot =>
      by_cases gone : ∀ j ∈ snapshot, j ∉ s.activeOperations
      · exact ⟨.drained i, s.drain i, nofun, nofun, by simp only [StoreOperationScheduler.step, stage, if_pos gone]⟩
      · simp only [not_forall, not_not] at gone
        obtain ⟨j, -, hj⟩ := gone
        have settled : s.Settled j := by
          rcases (h.active j hj).2.2 with running | settled
          · exact absurd running (idle j)
          · exact settled
        exact ⟨.forget j, _, nofun, nofun, if_pos ⟨hj, settled⟩⟩
    | queued =>
      by_cases released : s.tailReleased (s.operations.get i).after = true
      · have next : s.isNext i = true := by
          refine List.all_eq_true.mpr fun j hj => ?_
          have settled := earlier j (List.mem_range.mp hj)
          have : s.stage j ≠ .queued := by
            intro queued
            rw [Settled, queued] at settled
            cases settled
          simp [this]
        exact ⟨.react i false, _, nofun, nofun, if_pos ⟨hi, stage, released, next⟩⟩
      · have hangs := h.hangs i hi
        cases after : (s.operations.get i).after with
        | none => rw [after] at released; exact absurd rfl released
        | some e =>
          rw [after] at hangs released
          have unreleased : (s.operations.get e).released = false := by simpa [tailReleased] using released
          exact ⟨.release e, _, nofun, nofun, if_pos ⟨by have := hangs.1; omega, hangs.2.1, earlier e hangs.1,
            unreleased⟩⟩

/-! ## Exclusive operations are exclusive -/

structure Exclusive (s : StoreOperationScheduler) : Prop where
  alone : ∀ i j, (s.operations.get i).exclusive = true → s.stage i = .running → s.stage j = .running → j = i
  before : ∀ i j, (s.operations.get i).exclusive = true → s.Started i → i < s.operations.size → j < i → s.Settled j
  after : ∀ i j, (s.operations.get i).exclusive = true → s.Started j → j < s.operations.size → i < j → s.Settled i
  /-- Whatever has settled how, all that was submitted gets through: nothing is
  stuck, and the steps to go through are finitely many. -/
  proceeds : (∀ i, s.stage i ≠ .running) → ∀ i, ¬ s.Settled i →
    ∃ e t, ¬ IsSubmission e ∧ (∀ j ok, e ≠ .settle j ok) ∧ s.step e = some t
  finite : ∀ e t, ¬ IsSubmission e → s.step e = some t → t.work < s.work

theorem Ordered.exclusive (h : s.Ordered) : s.Exclusive := by
  have born (i : Nat) (running : s.stage i = .running) : i < s.operations.size := by
    by_contra hge
    rw [stage, h.unborn i (by omega)] at running
    cases running
  have turn (j : Nat) (hj : j < s.operations.size) (started : s.Started j) :
      s.tailReleased (s.operations.get j).after = true := by
    refine (h.reacted j hj ?_).1
    intro queued
    rcases started with running | settled
    · rw [queued] at running; cases running
    · rw [Settled, queued] at settled; cases settled
  have running_open (i : Nat) (running : s.stage i = .running) : ¬ s.Settled i := by rw [Settled, running]; nofun
  constructor
  · intro i j exclusive running running'
    have hj := born j running'
    by_cases earlier : j < i
    · have settled := h.before i (born i running) exclusive (.inl running) j earlier
      exact absurd settled (running_open j running')
    · by_cases later : i < j
      · have settled := h.later exclusive later hj (turn j hj (.inl running'))
        exact absurd settled (running_open i running)
      · omega
  · intro i j exclusive started hi hj
    exact h.before i hi exclusive started j hj
  · intro i j exclusive started hj hij
    exact h.later exclusive hij hj (turn j hj started)
  · exact fun idle i open_ => h.proceeds idle open_
  · exact fun e t => h.work_lt

/-- A failed reset between two writes: the second waits for it and runs. -/
def failedResetRun : List SchedulerEvent :=
  [.run, .runExclusive, .run, .react 0 false, .react 1 false, .settle 0 true, .forget 0, .drained 1, .settle 1 false,
    .release 1, .react 2 false]

end StoreOperationScheduler

end Fluo.Cache
