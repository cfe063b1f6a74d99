import Mathlib.Data.List.Perm.Basic
import Mathlib.Data.List.Pairwise
import Fluo.React.FormStore

/-!
# Who accounts for the state of a form

Every operation that is under way belongs to a generation. At most one belongs to
the current one, and it accounts for what is pending, for the lease that is held
and for the mutation that is going to be recorded.
-/

namespace Fluo.React.FormStore

variable {Data : Type}

def Mutation.isSaved : Mutation Data → Bool
  | .saved .. => true
  | _ => false

/-! ## What is under way -/

/-- The generation an operation compares with when it goes on. -/
def Point.id : Point Data → Option Nat
  | .superseding _ cancelling => some (cancelling + 1)
  | .pendingPublished x | .invalidated x | .savedInvalidated x _ | .response x => some x.id
  | .sessionChanging x _ | .sessionPublished x _ | .session x _ => some x.id
  | .authRejecting x _ | .auth x _ | .published x _ => some x.id
  | .readPublished r | .allowing r | .approving r | .allow r | .approve r => some r.id
  | _ => none

def Store.Idle (s : Store Data) : Prop :=
  s.snapshot.pending = false ∧ s.snapshot.followUp ≠ some .pending ∧ s.releaseLease = none

/-- The submission `x` is pending. -/
structure Store.Pending (s : Store Data) (x : Submission Data) : Prop where
  pending : s.snapshot.pending = true
  mutation : s.snapshot.mutation = none
  followUp : s.snapshot.followUp ≠ some .pending
  lease : s.releaseLease = x.lease
  reading : s.readingRequest = x.reading

/-- What an operation of the current generation accounts for. -/
def Point.Fits (s : Store Data) : Point Data → Prop
  | .superseding .. => s.Idle
  | .pendingPublished x | .invalidated x => s.Pending x ∧ x.id ∉ s.posts
  | .response x => s.Pending x
  | .sessionChanging _ m | .sessionPublished _ m | .session _ m =>
    s.snapshot.pending = false ∧ s.releaseLease = none ∧ m.isSaved = true
  | .authRejecting x _ | .auth x _ =>
    s.snapshot.pending = false ∧ s.snapshot.followUp ≠ some .pending ∧ s.releaseLease = x.lease ∧
      ∃ reason, s.snapshot.mutation = some (.auth reason)
  | .published _ m =>
    s.snapshot.pending = false ∧ s.releaseLease = none ∧ (m.isSaved = false → s.snapshot.followUp ≠ some .pending)
  | .savedInvalidated .. | .readPublished _ | .allowing _ | .approving _ | .allow _ | .approve _ =>
    s.snapshot.pending = false ∧ s.releaseLease = none
  | _ => True

/-- The operations under way and the store they share. -/
structure Control (s : Store Data) (acts : List (Point Data)) : Prop where
  ids : (acts.filterMap Point.id).Nodup
  bound : ∀ p ∈ acts, ∀ g, p.id = some g → g ≤ s.generation
  fits : ∀ p ∈ acts, p.id = some s.generation → p.Fits s
  idle : (∀ p ∈ acts, p.id ≠ some s.generation) → s.Idle
  aborting : ∀ g, .cancelReleasing (some g) ∈ acts → g < s.generation

structure Ledger (s : Store Data) : Prop where
  held : s.held = s.releaseLease.toList
  leases : ∀ lease, lease < s.leases ↔ lease ∈ s.released ∨ lease ∈ s.held
  once : (s.held ++ s.released).Nodup
  known : ∀ lease ∈ s.abortedLeases, lease < s.leases
  aborted : ∀ g ∈ s.aborted, g < s.generation
  active : ∀ g, s.active = some g → g ≤ s.generation
  sorted : s.records.Pairwise fun later earlier => earlier.1 < later.1
  recorded : ∀ r ∈ s.records, r.1 ≤ s.generation ∧ (s.snapshot.pending = true → r.1 ≠ s.generation)
  posts : ∀ g ∈ s.posts, g ∈ s.records.map Prod.fst ∨
    g = s.generation ∧ s.snapshot.pending = true ∧ s.readingRequest = false
  postedOnce : s.posts.Nodup
  outcome : ∀ r ∈ s.records, r ∈ s.answers ∨ (r.1 ∈ s.posts → r.2 = .uncertain .cancelled)
  answered : ∀ a ∈ s.answers, a ∈ s.records

/-- A lease that is held has not been aborted. -/
def Store.Live (s : Store Data) : Prop := ∀ lease ∈ s.held, lease ∉ s.abortedLeases

structure Inv (s : Store Data) (acts : List (Point Data)) : Prop extends Control s acts, Ledger s where
  live : s.Live

section

variable {s s' : Store Data} {acts others : List (Point Data)} {p q : Point Data}

theorem Inv.perm (h : Inv s acts) (perm : acts.Perm others) : Inv s others where
  ids := (perm.filterMap _).nodup_iff.mp h.ids
  bound p mem := h.bound p (perm.mem_iff.mpr mem)
  fits p mem := h.fits p (perm.mem_iff.mpr mem)
  idle none := h.idle fun p mem => none p (perm.mem_iff.mp mem)
  aborting g mem := h.aborting g (perm.mem_iff.mpr mem)
  toLedger := h.toLedger
  live := h.live

theorem Control.tail (h : Control s (p :: others)) : (others.filterMap Point.id).Nodup := by
  have ids := h.ids
  rw [List.filterMap_cons] at ids
  split at ids
  · exact ids
  · exact (List.nodup_cons.mp ids).2

theorem Control.alone {g : Nat} (h : Control s (p :: others)) (hp : p.id = some g) : ∀ q ∈ others, q.id ≠ some g := by
  intro q mem hq
  have ids := h.ids
  rw [List.filterMap_cons, hp] at ids
  exact (List.nodup_cons.mp ids).1 (List.mem_filterMap.mpr ⟨q, mem, hq⟩)

theorem Inv.stale (h : Inv s (p :: others)) (old : p.id ≠ some s.generation) : Inv s others where
  ids := h.tail
  bound q mem := h.bound q (List.mem_cons_of_mem _ mem)
  fits q mem := h.fits q (List.mem_cons_of_mem _ mem)
  idle none := h.idle fun q mem => by
    rcases List.mem_cons.mp mem with rfl | mem
    · exact old
    · exact none q mem
  aborting g mem := h.aborting g (List.mem_cons_of_mem _ mem)
  toLedger := h.toLedger
  live := h.live

/-- The current operation changes the store and goes on as `q`. -/
theorem Inv.move (h : Inv s (p :: others)) (hp : p.id = some s.generation) (hq : q.id = some s.generation)
    (generation : s'.generation = s.generation) (fits : q.Fits s') (ledger : Ledger s') (live : s'.Live) :
    Inv s' (q :: others) where
  ids := by
    have ids := h.ids
    rw [List.filterMap_cons, hp] at ids
    rwa [List.filterMap_cons, hq]
  bound p' mem g hg := by
    rw [generation]
    rcases List.mem_cons.mp mem with rfl | mem
    · rw [hq] at hg
      exact Nat.le_of_eq (Option.some.inj hg).symm
    · exact h.bound p' (List.mem_cons_of_mem _ mem) g hg
  fits p' mem hp' := by
    rcases List.mem_cons.mp mem with rfl | mem
    · exact fits
    · exact absurd (generation ▸ hp') (h.alone hp p' mem)
  idle none := absurd (generation ▸ hq) (none q List.mem_cons_self)
  aborting g mem := by
    rw [generation]
    rcases List.mem_cons.mp mem with rfl | mem
    · cases hq
    · exact h.aborting g (List.mem_cons_of_mem _ mem)
  toLedger := ledger
  live := live

/-- An operation goes on as `q` without a change. -/
theorem Inv.pass (h : Inv s (p :: others)) (same : q.id = p.id) (owns : p.id ≠ none)
    (fits : p.id = some s.generation → p.Fits s → q.Fits s) : Inv s (q :: others) := by
  by_cases current : p.id = some s.generation
  · exact h.move current (same.trans current) rfl (fits current (h.fits p List.mem_cons_self current)) h.toLedger h.live
  · refine { h with ids := ?_, bound := ?_, fits := ?_, idle := ?_, aborting := ?_ }
    · have ids := h.ids
      rw [List.filterMap_cons] at ids ⊢
      rwa [same]
    · intro p' mem g hg
      rcases List.mem_cons.mp mem with rfl | mem
      · exact h.bound p List.mem_cons_self g (same ▸ hg)
      · exact h.bound p' (List.mem_cons_of_mem _ mem) g hg
    · intro p' mem hp'
      rcases List.mem_cons.mp mem with rfl | mem
      · exact absurd (same ▸ hp') current
      · exact h.fits p' (List.mem_cons_of_mem _ mem) hp'
    · intro none
      refine h.idle fun p' mem => ?_
      rcases List.mem_cons.mp mem with rfl | mem
      · exact current
      · exact none p' (List.mem_cons_of_mem _ mem)
    · intro g mem
      rcases List.mem_cons.mp mem with rfl | mem
      · exact absurd same.symm owns
      · exact h.aborting g (List.mem_cons_of_mem _ mem)

theorem Inv.finish (h : Inv s (p :: others)) (hp : p.id = some s.generation)
    (generation : s'.generation = s.generation) (idle : s'.Idle) (ledger : Ledger s') (live : s'.Live) : Inv s' others where
  ids := h.tail
  bound q mem g hg := generation ▸ h.bound q (List.mem_cons_of_mem _ mem) g hg
  fits q mem hq := absurd (generation ▸ hq) (h.alone hp q mem)
  idle _ := idle
  aborting g mem := generation ▸ h.aborting g (List.mem_cons_of_mem _ mem)
  toLedger := ledger
  live := live

theorem Inv.call (h : Inv s acts) (hq : q.id = none) (aborting : ∀ g, q = .cancelReleasing (some g) → g < s.generation) :
    Inv s (q :: acts) where
  ids := by rw [List.filterMap_cons, hq]; exact h.ids
  bound p mem g hg := by
    rcases List.mem_cons.mp mem with rfl | mem
    · rw [hq] at hg; cases hg
    · exact h.bound p mem g hg
  fits p mem hp := by
    rcases List.mem_cons.mp mem with rfl | mem
    · rw [hq] at hp; cases hp
    · exact h.fits p mem hp
  idle none := h.idle fun p mem => none p (List.mem_cons_of_mem _ mem)
  aborting g mem := by
    rcases List.mem_cons.mp mem with this | mem
    · exact aborting g this.symm
    · exact h.aborting g mem
  toLedger := h.toLedger
  live := h.live

theorem Control.bump (h : Control s acts) (generation : s'.generation = s.generation + 1) (idle : s'.Idle) (ledger : Ledger s')
    (live : s'.Live) : Inv s' acts where
  ids := h.ids
  bound p mem g hg := by have := h.bound p mem g hg; omega
  fits p mem hp := by have := h.bound p mem _ hp; omega
  idle _ := idle
  aborting g mem := by have := h.aborting g mem; omega
  toLedger := ledger
  live := live

/-- A new generation begins with the operation `q`. -/
theorem Inv.begin (h : Inv s acts) (generation : s'.generation = s.generation + 1) (hq : q.id = some (s.generation + 1))
    (fits : q.Fits s') (ledger : Ledger s') (live : s'.Live) : Inv s' (q :: acts) where
  ids := by
    rw [List.filterMap_cons, hq]
    refine List.nodup_cons.mpr ⟨fun mem => ?_, h.ids⟩
    obtain ⟨p, mem, hp⟩ := List.mem_filterMap.mp mem
    have := h.bound p mem _ hp
    omega
  bound p mem g hg := by
    rcases List.mem_cons.mp mem with rfl | mem
    · rw [hq] at hg
      have := Option.some.inj hg
      omega
    · have := h.bound p mem g hg
      omega
  fits p mem hp := by
    rcases List.mem_cons.mp mem with rfl | mem
    · exact fits
    · have := h.bound p mem _ hp
      omega
  idle none := absurd (generation ▸ hq) (none q List.mem_cons_self)
  aborting g mem := by
    rcases List.mem_cons.mp mem with rfl | mem
    · cases hq
    · have := h.aborting g mem
      omega
  toLedger := ledger
  live := live

/-- What operations account for does not depend on the rest of the store. -/
theorem Point.Fits.frame (h : p.Fits s) (pending : s'.snapshot.pending = s.snapshot.pending)
    (mutation : s.snapshot.mutation = none → s'.snapshot.mutation = none)
    (auth : ∀ reason, s.snapshot.mutation = some (.auth reason) → s'.snapshot.mutation = some (.auth reason))
    (followUp : s'.snapshot.followUp = s.snapshot.followUp) (lease : s'.releaseLease = s.releaseLease)
    (reading : s'.readingRequest = s.readingRequest) (posts : s'.posts = s.posts) : p.Fits s' := by
  have transfer : ∀ x, s.Pending x → s'.Pending x := fun x h =>
    ⟨pending.trans h.pending, mutation h.mutation, followUp ▸ h.followUp, lease.trans h.lease, reading.trans h.reading⟩
  cases p with
  | superseding => exact ⟨pending.trans h.1, followUp ▸ h.2.1, lease.trans h.2.2⟩
  | pendingPublished | invalidated => exact ⟨transfer _ h.1, posts ▸ h.2⟩
  | response => exact transfer _ h
  | sessionChanging | sessionPublished | session => exact ⟨pending.trans h.1, lease.trans h.2.1, h.2.2⟩
  | authRejecting | auth =>
    obtain ⟨reason, stored⟩ := h.2.2.2
    exact ⟨pending.trans h.1, followUp ▸ h.2.1, lease.trans h.2.2.1, reason, auth reason stored⟩
  | published => exact ⟨pending.trans h.1, lease.trans h.2.1, fun notSaved => followUp ▸ h.2.2 notSaved⟩
  | savedInvalidated | readPublished | allowing | approving | allow | approve =>
    exact ⟨pending.trans h.1, lease.trans h.2⟩
  | sessionCancelled | readDone | readSettled | cancelReleasing | cancelAborting | revokeCancelling | done => trivial

theorem Inv.frame (h : Inv s acts) (pending : s'.snapshot.pending = s.snapshot.pending)
    (mutation : s.snapshot.mutation = none → s'.snapshot.mutation = none)
    (auth : ∀ reason, s.snapshot.mutation = some (.auth reason) → s'.snapshot.mutation = some (.auth reason))
    (followUp : s'.snapshot.followUp = s.snapshot.followUp) (lease : s'.releaseLease = s.releaseLease)
    (reading : s'.readingRequest = s.readingRequest) (posts : s'.posts = s.posts)
    (generation : s'.generation = s.generation) (ledger : Ledger s') (live : s'.Live) : Inv s' acts where
  ids := h.ids
  bound p mem := generation ▸ h.bound p mem
  fits p mem hp := (h.fits p mem (generation ▸ hp)).frame pending mutation auth followUp lease reading posts
  idle none := by
    have idle := h.idle (generation ▸ none)
    exact ⟨pending.trans idle.1, followUp ▸ idle.2.1, lease.trans idle.2.2⟩
  aborting g mem := generation ▸ h.aborting g mem
  toLedger := ledger
  live := live

end

/-! ## Leases and records -/

section

variable {s : Store Data}

theorem Ledger.initial : Ledger (Store.initial : Store Data) where
  held := rfl
  leases := by simp [Store.initial]
  once := by simp [Store.initial]
  known := by simp [Store.initial]
  aborted := by simp [Store.initial]
  active := by simp [Store.initial]
  sorted := .nil
  recorded := by simp [Store.initial]
  posts := by simp [Store.initial]
  postedOnce := by simp [Store.initial]
  outcome := by simp [Store.initial]
  answered := by simp [Store.initial]

theorem Ledger.publish (h : Ledger s) (snapshot : Snapshot Data) (pending : snapshot.pending = s.snapshot.pending) :
    Ledger (s.publish snapshot) :=
  { h with
    recorded := fun r mem => ⟨(h.recorded r mem).1, fun now => (h.recorded r mem).2 (pending ▸ now)⟩
    posts := fun g mem => (h.posts g mem).imp_right fun ⟨now, was, reading⟩ => ⟨now, pending.trans was, reading⟩ }

theorem release_held (h : Ledger s) : s.release.held = [] := by
  simp only [Store.release, h.held]
  cases s.releaseLease <;> simp

theorem Ledger.release (h : Ledger s) : Ledger s.release := by
  have held := release_held h
  refine { h with held := held, leases := fun lease => ?_, once := ?_ }
  · have leases := h.leases lease
    rw [h.held] at leases
    rw [held]
    simpa [Store.release, or_comm] using leases
  · rw [held]
    have once := h.once
    rw [h.held] at once
    exact once

theorem release_live (h : Ledger s) : s.release.Live := by
  intro lease mem
  rw [release_held h] at mem
  cases mem

theorem Ledger.borrow (h : Ledger s) (environment : Environment Data) : Ledger (s.borrow environment) := by
  unfold Store.borrow
  split
  next =>
    refine { h with leases := fun lease => ?_, once := ?_, known := fun lease mem => Nat.lt_succ_of_lt (h.known lease mem) }
    · have := h.leases lease
      simp only [List.mem_cons]
      grind
    · have fresh : s.leases ∉ s.released ∧ s.leases ∉ s.held := by
        have := h.leases s.leases
        grind
      have once := h.once
      rw [List.nodup_append] at once ⊢
      refine ⟨once.1, List.nodup_cons.mpr ⟨fresh.1, once.2.1⟩, fun lease mem lease' mem' => ?_⟩
      rcases List.mem_cons.mp mem' with rfl | mem'
      · rintro rfl
        exact fresh.2 mem
      · exact once.2.2 lease mem lease' mem'
  next => exact h

theorem borrow_live (live : s.Live) (environment : Environment Data) : (s.borrow environment).Live := by
  unfold Store.borrow
  split <;> exact live

theorem borrow_eq (s : Store Data) (environment : Environment Data) :
    s.borrow environment = { s with
      leases := (s.borrow environment).leases, released := (s.borrow environment).released } := by
  unfold Store.borrow
  split <;> rfl

theorem Ledger.next (h : Ledger s) (notPending : s.snapshot.pending = false) (active : Option Nat)
    (bound : ∀ g, active = some g → g ≤ s.generation + 1) :
    Ledger { s with generation := s.generation + 1, active := active } :=
  { h with
    aborted := fun g mem => Nat.lt_succ_of_lt (h.aborted g mem)
    active := bound
    recorded := fun r mem => ⟨Nat.le_succ_of_le (h.recorded r mem).1, fun now => by
      have now : s.snapshot.pending = true := now
      rw [notPending] at now; cases now⟩
    posts := fun g mem => (h.posts g mem).imp_right fun ⟨_, now, _⟩ => by rw [notPending] at now; cases now }

theorem Ledger.cancel (h : Ledger s) : Ledger s.cancel := by
  have released := h.release
  have before : ∀ r ∈ s.records, s.snapshot.pending = true → r.1 < s.generation := fun r mem now => by
    have := h.recorded r mem
    have := this.2 now
    omega
  refine ⟨released.held, released.leases, released.once, released.known, fun g mem => Nat.lt_succ_of_lt (h.aborted g mem),
    nofun, ?_, ?_, ?_, h.postedOnce, ?_, ?_⟩
  · change (if s.snapshot.pending then _ else _ : List _).Pairwise _
    split
    next now => exact .cons (fun r mem => before r mem now) h.sorted
    next => exact h.sorted
  · intro r mem
    refine ⟨?_, nofun⟩
    change r.1 ≤ s.generation + 1
    change r ∈ (if s.snapshot.pending then _ else _ : List _) at mem
    split at mem
    next =>
      rcases List.mem_cons.mp mem with rfl | mem
      · exact Nat.le_succ _
      · exact Nat.le_succ_of_le (h.recorded r mem).1
    next => exact Nat.le_succ_of_le (h.recorded r mem).1
  · intro g mem
    refine .inl ?_
    change g ∈ (if s.snapshot.pending then _ else _ : List _).map Prod.fst
    rcases h.posts g mem with recorded | ⟨rfl, now, _⟩
    · split
      next => exact List.mem_cons_of_mem _ recorded
      next => exact recorded
    · rw [if_pos now]
      exact List.mem_cons_self
  · intro r mem
    change r ∈ (if s.snapshot.pending then _ else _ : List _) at mem
    split at mem
    next now =>
      rcases List.mem_cons.mp mem with rfl | mem
      · refine .inr fun posted => ?_
        rcases h.posts _ posted with recorded | ⟨_, _, reading⟩
        · obtain ⟨r, mem, same⟩ := List.mem_map.mp recorded
          exact absurd same ((h.recorded r mem).2 now)
        · change s.cancelledMutation = _
          rw [Store.cancelledMutation, if_neg (by simp [reading])]
      · exact h.outcome r mem
    next => exact h.outcome r mem
  · intro a mem
    change a ∈ (if s.snapshot.pending then _ else _ : List _)
    split
    next => exact List.mem_cons_of_mem _ (h.answered a mem)
    next => exact h.answered a mem

theorem cancel_live (h : Ledger s) : s.cancel.Live := release_live h

theorem cancel_idle (s : Store Data) : s.cancel.Idle := by
  refine ⟨rfl, ?_, rfl⟩
  change (if s.snapshot.followUp = some .pending then _ else _) ≠ some FollowUp.pending
  split
  next => simp
  next other => exact other

theorem Ledger.accept (h : Ledger s) (idle : s.Idle) (call : Call Data) : Ledger (s.accept call) := by
  obtain ⟨notPending, _, noLease⟩ := idle
  have noHeld : s.held = [] := by rw [h.held, noLease]; rfl
  refine ⟨by simp [Store.accept, noHeld], fun lease => ?_, ?_, fun lease mem => ?_,
    fun g mem => Nat.lt_succ_of_lt (h.aborted g mem), fun g hg => Nat.le_of_eq (Option.some.inj hg).symm, h.sorted, fun r mem => ?_,
    fun g mem => ?_, h.postedOnce, h.outcome, h.answered⟩
  · have := h.leases lease
    simp only [Store.accept, noHeld, List.append_nil] at this ⊢
    cases call.environment.lease <;> simp <;> grind
  · have once := h.once
    have := h.leases s.leases
    simp only [Store.accept, noHeld, List.append_nil, List.nil_append] at once this ⊢
    cases call.environment.lease <;> simp <;> grind
  · have := h.known lease mem
    simp only [Store.accept]
    split <;> omega
  · have := (h.recorded r mem).1
    exact ⟨Nat.le_succ_of_le this, fun _ => by change r.1 ≠ s.generation + 1; omega⟩
  · refine .inl ((h.posts g mem).resolve_right fun ⟨_, now, _⟩ => ?_)
    rw [notPending] at now
    cases now

theorem accept_live (h : Ledger s) (idle : s.Idle) (call : Call Data) : (s.accept call).Live := by
  intro lease mem known
  have noHeld : s.held = [] := by rw [h.held, idle.2.2]; rfl
  have := h.known lease known
  simp only [Store.accept, noHeld, List.append_nil, Option.mem_toList] at mem
  split at mem <;> simp at mem
  omega

theorem Ledger.record (h : Ledger s) {x : Submission Data} (current : x.id = s.generation)
    (pending : s.snapshot.pending = true) (m : Mutation Data) : Ledger (s.record x m) := by
  have before : ∀ r ∈ s.records, r.1 < x.id := fun r mem => by
    have := h.recorded r mem
    have := this.2 pending
    omega
  refine { h with sorted := .cons before h.sorted, recorded := ?_, posts := ?_, outcome := ?_, answered := ?_ }
  · intro r mem
    refine ⟨?_, nofun⟩
    rcases List.mem_cons.mp mem with rfl | mem
    · exact Nat.le_of_eq current
    · exact (h.recorded r mem).1
  · intro g mem
    refine .inl ?_
    rcases h.posts g mem with recorded | ⟨rfl, _, _⟩
    · exact List.mem_cons_of_mem _ recorded
    · exact List.mem_map.mpr ⟨_, List.mem_cons_self, current⟩
  · intro r mem
    rcases List.mem_cons.mp mem with rfl | mem
    · exact .inl List.mem_cons_self
    · exact (h.outcome r mem).imp_left (List.mem_cons_of_mem _)
  · intro a mem
    rcases List.mem_cons.mp mem with rfl | mem
    · exact List.mem_cons_self
    · exact List.mem_cons_of_mem _ (h.answered a mem)

theorem Ledger.post (h : Ledger s) {x : Submission Data} (current : x.id = s.generation) (pending : s.Pending x)
    (posting : x.reading = false) (fresh : x.id ∉ s.posts) : Ledger { s with posts := x.id :: s.posts } := by
  refine { h with posts := ?_, postedOnce := List.nodup_cons.mpr ⟨fresh, h.postedOnce⟩, outcome := ?_ }
  · intro g mem
    rcases List.mem_cons.mp mem with rfl | mem
    · exact .inr ⟨current, pending.pending, pending.reading.trans posting⟩
    · exact h.posts g mem
  · intro r mem
    refine (h.outcome r mem).imp_right fun outcome posted => ?_
    rcases List.mem_cons.mp posted with this | posted
    · exact absurd (this.trans current) ((h.recorded r mem).2 pending.pending)
    · exact outcome posted

end

/-! ## Operations keep it -/

def System.acts (s : System Data) : List (Point Data) := s.stack ++ s.promises

def System.Inv (s : System Data) : Prop := FormStore.Inv s.store s.acts

section

variable {s : System Data} {p q : Point Data}

theorem Inv.waiting (h : Inv s.store (q :: s.acts)) : (s.wait q).Inv :=
  h.perm List.perm_middle.symm

theorem Control.ofSaved {store : Store Data} {acts : List (Point Data)} (h : Control store acts)
    (notPending : store.snapshot.pending = false) (noFollowUp : store.snapshot.followUp ≠ some .pending)
    (noAuth : ∀ x m, .authRejecting x m ∈ acts ∨ .auth x m ∈ acts → x.id = store.generation → x.lease = none) :
    store.Idle := by
  by_cases none : ∀ p ∈ acts, p.id ≠ some store.generation
  · exact h.idle none
  · push Not at none
    obtain ⟨p, mem, current⟩ := none
    have fits := h.fits p mem current
    refine ⟨notPending, noFollowUp, ?_⟩
    cases p with
    | superseding => exact fits.2.2
    | pendingPublished | invalidated => exact absurd fits.1.pending (by simp [notPending])
    | response => exact absurd (Store.Pending.pending fits) (by simp [notPending])
    | sessionChanging | sessionPublished | session => exact fits.2.1
    | authRejecting x m => exact fits.2.2.1.trans (noAuth x m (.inl mem) (Option.some.inj current))
    | auth x m => exact fits.2.2.1.trans (noAuth x m (.inr mem) (Option.some.inj current))
    | published => exact fits.2.1
    | savedInvalidated | readPublished | allowing | approving | allow | approve => exact fits.2
    | sessionCancelled | readDone | readSettled | cancelReleasing | cancelAborting | revokeCancelling | done =>
      cases current

theorem Control.ofRetry {store : Store Data} {acts : List (Point Data)} (h : Control store acts) {m : Mutation Data}
    (saved : store.snapshot.mutation = some m) (isSaved : m.isSaved = true)
    (noFollowUp : store.snapshot.followUp ≠ some .pending) : store.Idle := by
  have notAuth : ∀ reason, store.snapshot.mutation ≠ some (.auth reason) := by
    intro reason auth
    rw [saved] at auth
    cases auth
    cases isSaved
  by_cases notPending : store.snapshot.pending = false
  · refine h.ofSaved notPending noFollowUp fun x m mem current => ?_
    rcases mem with mem | mem
    · obtain ⟨_, _, _, reason, auth⟩ := h.fits _ mem (congrArg some current)
      exact absurd auth (notAuth reason)
    · obtain ⟨_, _, _, reason, auth⟩ := h.fits _ mem (congrArg some current)
      exact absurd auth (notAuth reason)
  · -- Something that is pending has no mutation yet.
    by_cases none : ∀ p ∈ acts, p.id ≠ some store.generation
    · exact h.idle none
    · push Not at none
      obtain ⟨p, mem, current⟩ := none
      have fits := h.fits p mem current
      have noMutation : ∀ x, ¬store.Pending x := fun x pending => by
        rw [pending.mutation] at saved
        cases saved
      cases p with
      | superseding => exact fits
      | pendingPublished | invalidated => exact absurd fits.1 (noMutation _)
      | response => exact absurd fits (noMutation _)
      | sessionChanging | sessionPublished | session | authRejecting | auth | published | savedInvalidated
      | readPublished | allowing | approving | allow | approve => exact absurd fits.1 notPending
      | sessionCancelled | readDone | readSettled | cancelReleasing | cancelAborting | revokeCancelling | done =>
        cases current

theorem Inv.borrow {store : Store Data} {acts : List (Point Data)} (h : FormStore.Inv store acts)
    (environment : Environment Data) : FormStore.Inv (store.borrow environment) acts := by
  have ledger := h.toLedger.borrow environment
  have live := borrow_live h.live environment
  rw [borrow_eq] at ledger live ⊢
  exact h.frame rfl id (fun _ => id) rfl rfl rfl rfl rfl ledger live

theorem borrow_idle {store : Store Data} (idle : store.Idle) (environment : Environment Data) :
    (store.borrow environment).Idle := by
  rw [borrow_eq]
  exact idle

theorem cancel_inv (h : s.Inv) : s.cancel.Inv := by
  have cancelled : Inv s.store.cancel s.acts :=
    h.toControl.bump rfl (cancel_idle _) h.toLedger.cancel (cancel_live h.toLedger)
  refine cancelled.call (q := .cancelReleasing s.store.active) rfl fun g active => ?_
  obtain active : s.store.active = some g := by simpa using active
  exact Nat.lt_succ_of_le (h.active g active)

/-- A revocation releases the lease, whether it has been aborted or not. -/
theorem revoke_of_control (control : Control s.store s.acts) (ledger : Ledger s.store) : (s.revoke false).Inv := by
  have ledger' : Ledger { s.store with transferred := false } := { ledger with }
  have cancelled : Inv (Store.cancel { s.store with transferred := false }) s.acts :=
    control.bump rfl (cancel_idle _) ledger'.cancel (cancel_live ledger')
  have called := cancelled.call (q := .revokeCancelling) rfl nofun
  refine called.call (q := .cancelReleasing s.store.active) rfl fun g active => ?_
  obtain active : s.store.active = some g := by simpa using active
  exact Nat.lt_succ_of_le (ledger.active g active)

theorem revoke_inv {keepSaved : Bool} (h : s.Inv) : (s.revoke keepSaved).Inv := by
  cases keepSaved with
  | true => exact h.frame rfl id (fun _ => id) rfl rfl rfl rfl rfl { h.toLedger with } h.live
  | false => exact revoke_of_control h.toControl h.toLedger

theorem accept_inv (h : s.Inv) (idle : s.store.Idle) (call : Call Data) : (s.accept call).Inv := by
  unfold System.accept
  split
  · have borrowed := Inv.borrow h call.environment
    have idle := borrow_idle idle call.environment
    have ledger := borrowed.toLedger.next idle.1 _ fun g active => Nat.le_succ_of_le (borrowed.active g active)
    rw [borrow_eq] at ledger idle borrowed
    unfold System.update
    dsimp only
    rw [borrow_eq]
    exact borrowed.toControl.bump rfl idle ledger borrowed.live
  · refine h.begin rfl rfl ⟨⟨rfl, rfl, nofun, rfl, rfl⟩, ?_⟩ (h.toLedger.accept idle call) (accept_live h.toLedger idle call)
    intro posted
    rcases h.posts _ posted with recorded | ⟨current, _⟩
    · obtain ⟨r, mem, same⟩ := List.mem_map.mp recorded
      have := (h.recorded r mem).1
      change r.1 = s.store.generation + 1 at same
      omega
    · exact absurd current (Nat.succ_ne_self _)

/-- No submission that holds a lease waits for `authRejected`. -/
def System.NoLeasedAuth (s : System Data) : Prop :=
  ∀ x m, .authRejecting x m ∈ s.acts ∨ .auth x m ∈ s.acts → x.id = s.store.generation → x.lease = none

theorem submit_inv {mode : Mode} {call : Call Data} (h : s.Inv) (careful : s.NoLeasedAuth) :
    (s.submit mode call).Inv := by
  unfold System.submit
  dsimp only
  split
  next => exact h
  next =>
    split
    next =>
      cases mode with
      | navigation =>
        have published : Inv (s.store.publish { s.store.snapshot with skipped := s.store.snapshot.skipped + 1 }) s.acts :=
          h.frame rfl id (fun _ => id) rfl rfl rfl rfl rfl (h.toLedger.publish _ rfl) h.live
        exact published.call (q := .done) rfl nofun
      | background =>
        have cancelled : Inv s.store.cancel (.superseding call s.store.generation :: s.acts) :=
          h.begin rfl rfl (cancel_idle _) h.toLedger.cancel (cancel_live h.toLedger)
        refine cancelled.call (q := .cancelReleasing s.store.active) rfl fun g active => ?_
        obtain active : s.store.active = some g := by simpa using active
        exact Nat.lt_succ_of_le (h.active g active)
    next quiet =>
      push Not at quiet
      exact accept_inv h (h.ofSaved (by simpa using quiet.1) quiet.2 careful) call

theorem read_inv {navigate afterSubmit : Bool} (h : s.Inv) (notPending : s.store.snapshot.pending = false)
    (noLease : s.store.releaseLease = none) : (s.read navigate afterSubmit).Inv := by
  have ledger := h.toLedger.next notPending (some (s.store.generation + 1)) (by simp)
  exact h.begin rfl rfl ⟨notPending, noLease⟩ (ledger.publish _ rfl) h.live

theorem retryRead_inv {leaseCurrent : Bool} (h : s.Inv) : (s.retryRead leaseCurrent).Inv := by
  unfold System.retryRead
  split
  next destination followUp data session environment saved here =>
    split
    next => exact h
    next noFollowUp =>
      have idle := borrow_idle (h.ofRetry saved rfl noFollowUp) environment
      have borrowed : (s.update (·.borrow environment)).Inv := Inv.borrow h environment
      dsimp only
      split
      · exact borrowed
      · exact read_inv borrowed idle.1 idle.2.2
  next => exact h

theorem Inv.current {store : Store Data} {acts : List (Point Data)} {x : Submission Data} (h : FormStore.Inv store acts)
    (pending : store.Pending x) (current : x.id = store.generation) : store.Current x := by
  refine ⟨current, fun aborted => ?_, fun lease mem => ?_⟩
  · have := h.aborted x.id aborted
    omega
  · refine h.live lease ?_
    rw [h.held, pending.lease]
    exact Option.mem_toList.mpr mem

theorem dispatch_inv {x : Submission Data} (h : Inv s.store (p :: s.acts)) (hp : p.id = some x.id)
    (fits : p.Fits s.store → s.store.Pending x ∧ x.id ∉ s.store.posts) : (s.dispatch x).Inv := by
  unfold System.dispatch
  split
  next current =>
    have here : p.id = some s.store.generation := hp.trans (congrArg some current.1)
    obtain ⟨pending, fresh⟩ := fits (h.fits p List.mem_cons_self here)
    refine Inv.waiting (s := s.update _) ?_
    simp only [System.update]
    cases reading : x.reading with
    | true => exact h.move (q := .response x) here (congrArg some current.1) rfl pending h.toLedger h.live
    | false =>
      have posted := h.toLedger.post current.1 pending reading fresh
      exact h.move (q := .response x) here (congrArg some current.1) rfl { pending with } posted h.live
  next superseded =>
    refine h.stale fun here => superseded ?_
    obtain ⟨pending, _⟩ := fits (h.fits p List.mem_cons_self here)
    exact h.current pending (Option.some.inj (hp.symm.trans here))

theorem finish_inv {x : Submission Data} {m : Mutation Data} (h : Inv s.store (p :: s.acts)) (hp : p.id = some x.id)
    (ready : p.Fits s.store → s.store.snapshot.pending = false ∧
      (m.isSaved = false → s.store.snapshot.followUp ≠ some .pending)) : (s.finish x m).Inv := by
  unfold System.finish
  split
  next current =>
    have here : p.id = some s.store.generation := hp.trans (congrArg some current)
    obtain ⟨notPending, noFollowUp⟩ := ready (h.fits p List.mem_cons_self here)
    exact h.move (q := .published x m) here (congrArg some current) rfl ⟨notPending, rfl, noFollowUp⟩
      { h.toLedger.release with active := nofun } (release_live h.toLedger)
  next superseded =>
    refine h.stale fun here => superseded ?_
    exact Option.some.inj (hp.symm.trans here)

theorem respond_inv {x : Submission Data} {m : Mutation Data} (h : Inv s.store (.response x :: s.acts))
    (current : x.id = s.store.generation) : (s.respond x m).Inv := by
  have pending : s.store.Pending x := h.fits _ List.mem_cons_self (congrArg some current)
  have ledger := h.toLedger.record current pending.pending m
  have finished (noFollowUp : m.isSaved = false → (s.store.record x m).snapshot.followUp ≠ some .pending) :
      ((s.update (·.record x m)).finish x m).Inv := by
    have still : x.id = (s.update (·.record x m)).store.generation := current
    unfold System.finish
    rw [if_pos still]
    exact h.move (q := .published x m) (congrArg some current) (congrArg some current) rfl ⟨rfl, rfl, noFollowUp⟩
      { ledger.release with active := nofun } (release_live ledger)
  unfold System.respond
  split
  next =>
    split
    · exact h.move (q := .sessionChanging x _) (congrArg some current) (congrArg some current) rfl ⟨rfl, rfl, rfl⟩
        ledger.release (release_live ledger)
    · exact finished nofun
  next reason =>
    split
    · exact h.move (q := .authRejecting x _) (congrArg some current) (congrArg some current) rfl
        ⟨rfl, nofun, pending.lease, reason, rfl⟩ ledger h.live
    · exact finished nofun
  next notSession _ =>
    refine finished ?_
    cases m with
    | saved destination followUp data session => exact nofun
    | read | error | validation | auth | rejected | uncertain => exact fun _ => nofun

theorem leave_inv (h : s.Inv) : s.leave.Inv := by
  have transferred : Inv { s.store with transferred := false } s.acts :=
    h.frame rfl id (fun _ => id) rfl rfl rfl rfl rfl { h.toLedger with } h.live
  exact transferred.call (q := .done) rfl nofun

theorem endRead_inv {r : Reading} (h : s.Inv) : (s.endRead r).Inv := by
  unfold System.endRead
  split
  · exact Inv.waiting (h.call (q := .readDone) rfl nofun)
  · exact h

theorem settleRead_inv {r : Reading} {result : FollowUp} (h : Inv s.store (p :: s.acts))
    (current : p.id = some s.store.generation)
    (idle : p.Fits s.store → s.store.snapshot.pending = false ∧ s.store.releaseLease = none)
    (settled : result ≠ .pending) : (s.settleRead r result).Inv := by
  obtain ⟨notPending, noLease⟩ := idle (h.fits p List.mem_cons_self current)
  have ledger : Ledger { s.store with active := none } := { h.toLedger with active := nofun }
  have finished : Inv (s.store.settleRead result) s.acts :=
    h.finish current rfl ⟨notPending, fun same => settled (Option.some.inj same), noLease⟩ (ledger.publish _ rfl) h.live
  exact finished.call (q := .readSettled r) rfl nofun

/-- What the operations of `read` have in common. -/
def Point.Reads (r : Reading) (p : Point Data) : Prop :=
  p.id = some r.id ∧ ∀ store : Store Data, p.Fits store = (store.snapshot.pending = false ∧ store.releaseLease = none)

theorem Point.Reads.settle {r : Reading} {result : FollowUp} (reads : p.Reads r) (h : Inv s.store (p :: s.acts))
    (settled : result ≠ .pending) (current : r.id = s.store.generation) : (s.settleRead r result).Inv :=
  settleRead_inv h (reads.1.trans (congrArg some current)) (fun fits => reads.2 _ ▸ fits) settled

theorem Point.Reads.stale {r : Reading} (reads : p.Reads r) (h : Inv s.store (p :: s.acts))
    (superseded : r.id ≠ s.store.generation) : s.Inv :=
  h.stale fun here => superseded (Option.some.inj (reads.1.symm.trans here))

theorem Point.Reads.pass {r : Reading} (reads : p.Reads r) (next : q.Reads r) (h : Inv s.store (p :: s.acts)) :
    Inv s.store (q :: s.acts) :=
  h.pass (next.1.trans reads.1.symm) (by rw [reads.1]; nofun) fun _ fits => by rw [next.2]; exact reads.2 _ ▸ fits

theorem approved_inv {r : Reading} {result : FollowUp} (reads : p.Reads r) (h : Inv s.store (p :: s.acts))
    (settled : result ≠ .pending) : (s.approved r result).Inv := by
  unfold System.approved
  split
  next superseded => exact endRead_inv (reads.stale h superseded)
  next current => exact reads.settle h settled (by simpa using current)

theorem allowed_inv {mode : Mode} {navigationCurrent allowed : Bool} {r : Reading} (reads : p.Reads r)
    (h : Inv s.store (p :: s.acts)) : (s.allowed mode navigationCurrent r allowed).Inv := by
  unfold System.allowed
  split
  next superseded => exact endRead_inv (reads.stale h superseded)
  next current =>
    have current : r.id = s.store.generation := by simpa using current
    split
    next => exact reads.settle h (by decide) current
    next =>
      split
      · exact reads.pass ⟨rfl, fun _ => rfl⟩ h
      · exact reads.settle h (by decide) current

/-! ## Steps -/

theorem resume_inv {mode : Mode} {navigationCurrent : Bool} {t : System Data} (h : Inv s.store (p :: s.acts))
    (step : s.resume mode navigationCurrent p = some t) : t.Inv := by
  cases p with
  | superseding call cancelling =>
    cases step
    split
    next current =>
      have idle : s.store.Idle := h.fits _ List.mem_cons_self (congrArg some current.symm)
      exact accept_inv (h.finish (congrArg some current.symm) rfl idle h.toLedger h.live) idle call
    next superseded => exact h.stale fun current => superseded (Option.some.inj current).symm
  | pendingPublished x =>
    simp only [System.resume] at step
    split at step
    next =>
      cases step
      split
      · exact dispatch_inv h rfl id
      · exact h.pass (q := .invalidated x) rfl nofun fun _ => id
    next superseded =>
      cases step
      refine h.stale fun current => superseded ⟨Option.some.inj current, fun aborted => ?_⟩
      have := h.aborted _ aborted
      have : x.id = s.store.generation := Option.some.inj current
      omega
  | invalidated x => cases step; exact dispatch_inv h rfl id
  | sessionChanging x m => cases step; exact h.pass (q := .sessionPublished x m) rfl nofun fun _ => id
  | sessionPublished x m => cases step; exact Inv.waiting (h.pass (q := .session x m) rfl nofun fun _ => id)
  | sessionCancelled => cases step; exact leave_inv (h.stale nofun)
  | authRejecting x m => cases step; exact Inv.waiting (h.pass (q := .auth x m) rfl nofun fun _ => id)
  | published x m =>
    cases m with
    | saved destination followUp data session =>
      cases step
      exact h.pass (q := .savedInvalidated x _) rfl nofun fun _ fits => ⟨fits.1, fits.2.1⟩
    | read | error | validation | auth | rejected | uncertain =>
      cases step
      by_cases current : x.id = s.store.generation
      · have here := congrArg some current
        obtain ⟨notPending, noLease, noFollowUp⟩ := h.fits _ List.mem_cons_self here
        exact h.finish here rfl ⟨notPending, noFollowUp rfl, noLease⟩ h.toLedger h.live
      · exact h.stale fun here => current (Option.some.inj here)
  | savedInvalidated x navigate =>
    cases step
    split
    next current =>
      have here : (Point.savedInvalidated x navigate).id = some s.store.generation := congrArg some current
      obtain ⟨notPending, noLease⟩ := h.fits _ List.mem_cons_self here
      have ledger := h.toLedger.next notPending (some (s.store.generation + 1)) (by simp)
      -- The generation of the read replaces that of the submission.
      have fits : (Point.readPublished ⟨s.store.generation + 1, navigate, true⟩).Fits s.store.startRead := ⟨notPending, noLease⟩
      have begun := h.begin rfl rfl fits (ledger.publish _ rfl) h.live
      exact (begun.perm (.swap ..)).stale fun old => absurd (here.symm.trans old) (by simp [Store.startRead])
    next superseded => exact h.stale fun here => superseded (Option.some.inj here)
  | readPublished r =>
    have reads : (Point.readPublished r : Point Data).Reads r := ⟨rfl, fun _ => rfl⟩
    cases step
    split
    next superseded =>
      refine endRead_inv (reads.stale h fun current => ?_)
      rcases superseded with superseded | aborted
      · exact superseded current
      · have := h.aborted _ aborted
        omega
    next current =>
      push Not at current
      split
      · exact reads.settle h (by decide) current.1
      · cases mode <;> exact reads.pass ⟨rfl, fun _ => rfl⟩ h
  | allowing r => cases step; exact Inv.waiting (h.pass (q := .allow r) rfl nofun fun _ => id)
  | approving r => cases step; exact Inv.waiting (h.pass (q := .approve r) rfl nofun fun _ => id)
  | readSettled r => cases step; exact endRead_inv (h.stale nofun)
  | cancelReleasing controller =>
    cases step
    have known : ∀ g ∈ controller.toList ++ s.store.aborted, g < s.store.generation := by
      intro g mem
      rcases List.mem_append.mp mem with mem | mem
      · cases controller with
        | none => cases mem
        | some g' =>
          obtain rfl : g = g' := by simpa using mem
          exact h.aborting g List.mem_cons_self
      · exact h.aborted g mem
    have aborted : Inv { s.store with aborted := controller.toList ++ s.store.aborted } s.acts :=
      (h.stale nofun).frame rfl id (fun _ => id) rfl rfl rfl rfl rfl { h.toLedger with aborted := known } h.live
    exact aborted.call (q := .cancelAborting) rfl nofun
  | cancelAborting =>
    cases step
    have past : Inv { s.store with revoking := false } s.acts :=
      (h.stale nofun).frame rfl id (fun _ => id) rfl rfl rfl rfl rfl { h.toLedger with } h.live
    exact past.call (q := .done) rfl nofun
  | revokeCancelling =>
    cases step
    have ledger : Ledger { s.store with readEnvironment := none } := { h.toLedger with }
    have revoked : Inv s.store.revoked s.acts := by
      refine (h.stale nofun).frame rfl ?_ ?_ rfl rfl rfl rfl rfl (ledger.publish _ rfl) h.live
      · intro none
        simp [Store.revoked, none]
      · intro reason auth
        simp [Store.revoked, auth]
    exact revoked.call (q := .done) rfl nofun
  | done => cases step; exact h.stale nofun
  | response | session | auth | allow | approve | readDone => cases step

/-- The steps after which each outcome is accounted for: no submission is called while one
that holds a lease waits for `authRejected`, and neither `sessionChanged` nor,
with a lease, `authRejected` rejects for the current submission. -/
def Careful (s : System Data) : Event Data → Prop
  | .submit _ => s.NoLeasedAuth
  | .settle index .rejected _ =>
    ∀ x m, (s.promises[index]? = some (.session x m) → x.id ≠ s.store.generation) ∧
      (s.promises[index]? = some (.auth x m) → x.id = s.store.generation → x.lease = none)
  | _ => True

theorem continue_inv {mode : Mode} {navigationCurrent : Bool} {outcome : Outcome Data} {t : System Data}
    (h : Inv s.store (p :: s.acts)) (step : s.continue mode navigationCurrent p outcome = some t)
    (careful : ∀ x m, outcome = .rejected → (p = .session x m → x.id ≠ s.store.generation) ∧
      (p = .auth x m → x.id = s.store.generation → x.lease = none)) : t.Inv := by
  cases p with
  | response x =>
    cases outcome with
    | response m =>
      cases step
      split
      next current => exact respond_inv h current.1
      next superseded =>
        refine h.stale fun current => superseded ?_
        exact h.current (h.fits _ List.mem_cons_self current) (Option.some.inj current)
    | aborted =>
      simp only [System.continue, Option.ite_none_right_eq_some, Option.some.injEq] at step
      obtain ⟨aborted, rfl⟩ := step
      refine h.stale fun current => ?_
      have := h.aborted _ aborted
      have : x.id = s.store.generation := Option.some.inj current
      omega
    | fulfilled | approved | rejected => cases step
  | session x m =>
    have refuse : (s.refuseSession x).Inv := by
      unfold System.refuseSession
      split
      next current =>
        have here : (Point.session x m).id = some s.store.generation := congrArg some current
        obtain ⟨notPending, noLease, _⟩ := h.fits _ List.mem_cons_self here
        have cancelled : Inv (s.store.followUp .cancelled) s.acts :=
          h.finish here rfl ⟨notPending, nofun, noLease⟩ (h.toLedger.publish _ rfl) h.live
        exact cancelled.call (q := .sessionCancelled) rfl nofun
      next superseded => exact leave_inv (h.stale fun here => superseded (Option.some.inj here))
    cases outcome with
    | fulfilled value =>
      cases value with
      | false => cases step; exact refuse
      | true =>
        cases step
        split
        next current =>
          have borrowed := Inv.borrow h x.environment
          refine finish_inv (s := s.update (·.borrow x.environment)) borrowed rfl fun fits => ⟨fits.1, fun notSaved => ?_⟩
          rw [fits.2.2] at notSaved
          cases notSaved
        next superseded => exact leave_inv (h.stale fun here => superseded (Option.some.inj here))
    | aborted =>
      simp only [System.continue, Option.ite_none_right_eq_some, Option.some.injEq] at step
      obtain ⟨_, rfl⟩ := step
      exact refuse
    | rejected =>
      cases step
      exact h.stale fun here => (careful x m rfl).1 rfl (Option.some.inj here)
    | response | approved => cases step
  | auth x m =>
    have finished : (s.finish x m).Inv := finish_inv h rfl fun fits => ⟨fits.1, fun _ => fits.2.1⟩
    cases outcome with
    | fulfilled value => cases step; exact finished
    | aborted =>
      simp only [System.continue, Option.ite_none_right_eq_some, Option.some.injEq] at step
      obtain ⟨_, rfl⟩ := step
      exact finished
    | rejected =>
      cases step
      by_cases current : x.id = s.store.generation
      · have here : (Point.auth x m).id = some s.store.generation := congrArg some current
        obtain ⟨notPending, noFollowUp, lease, _⟩ := h.fits _ List.mem_cons_self here
        exact h.finish here rfl ⟨notPending, noFollowUp, lease.trans ((careful x m rfl).2 rfl current)⟩ h.toLedger h.live
      · exact h.stale fun here => current (Option.some.inj here)
    | response | approved => cases step
  | readDone =>
    cases outcome with
    | fulfilled value => cases step; exact leave_inv (h.stale nofun)
    | response | approved | rejected | aborted => cases step
  | allow r =>
    have reads : (Point.allow r : Point Data).Reads r := ⟨rfl, fun _ => rfl⟩
    cases outcome with
    | fulfilled value => cases step; exact allowed_inv reads h
    | aborted =>
      simp only [System.continue, Option.ite_none_right_eq_some, Option.some.injEq] at step
      obtain ⟨_, rfl⟩ := step
      exact allowed_inv reads h
    | rejected => cases step; exact approved_inv reads h (by decide)
    | response | approved => cases step
  | approve r =>
    have reads : (Point.approve r : Point Data).Reads r := ⟨rfl, fun _ => rfl⟩
    cases outcome with
    | approved result =>
      simp only [System.continue] at step
      split at step
      next => cases step
      next settled =>
        cases step
        exact approved_inv reads h fun pending => settled (.inl pending)
    | rejected => cases step; exact approved_inv reads h (by decide)
    | aborted =>
      simp only [System.continue, Option.ite_none_right_eq_some, Option.some.injEq] at step
      obtain ⟨_, rfl⟩ := step
      exact approved_inv reads h (by decide)
    | response | fulfilled => cases step
  | superseding | pendingPublished | invalidated | sessionChanging | sessionPublished | sessionCancelled | authRejecting
  | published | savedInvalidated | readPublished | allowing | approving | readSettled | cancelReleasing | cancelAborting
  | revokeCancelling | done => cases outcome <;> cases step

theorem Inv.initial : (System.initial : System Data).Inv where
  ids := .nil
  bound p mem := absurd mem List.not_mem_nil
  fits p mem := absurd mem List.not_mem_nil
  idle _ := ⟨rfl, by simp [System.initial, Store.initial], rfl⟩
  aborting g mem := absurd mem List.not_mem_nil
  toLedger := .initial
  live lease mem := absurd mem List.not_mem_nil

/-- A lease is aborted; while it is held, its listener revokes the form. -/
theorem abortLease_inv {lease : Nat} (h : s.Inv) (known : lease < s.store.leases) :
    (if lease ∈ s.store.held then
      (s.update fun store => { store with abortedLeases := lease :: store.abortedLeases }).revoke false
    else s.update fun store => { store with abortedLeases := lease :: store.abortedLeases }).Inv := by
  have ledger : Ledger { s.store with abortedLeases := lease :: s.store.abortedLeases } :=
    { h.toLedger with known := fun other mem => (List.mem_cons.mp mem).elim (· ▸ known) (h.known other) }
  split
  next =>
    refine revoke_of_control (s := s.update _) ?_ ledger
    exact ⟨h.ids, h.bound, fun p mem current => (h.fits p mem current).frame rfl id (fun _ => id) rfl rfl rfl rfl,
      h.idle, h.aborting⟩
  next notHeld =>
    refine h.frame rfl id (fun _ => id) rfl rfl rfl rfl rfl ledger fun other held aborted => ?_
    rcases List.mem_cons.mp aborted with rfl | aborted
    · exact notHeld held
    · exact h.live other held aborted

theorem System.Inv.called {rest : List (Point Data)} (h : s.Inv) (here : s.stack = p :: rest) :
    FormStore.Inv ({ s with stack := rest } : System Data).store (p :: ({ s with stack := rest } : System Data).acts) := by
  unfold System.Inv System.acts at h
  rwa [here] at h

/-- The promise at `index` has settled. -/
theorem System.Inv.awaited {index : Nat} (h : s.Inv) (here : s.promises[index]? = some p) :
    FormStore.Inv ({ s with promises := s.promises.eraseIdx index } : System Data).store
      (p :: ({ s with promises := s.promises.eraseIdx index } : System Data).acts) := by
  have bound := (List.getElem?_eq_some_iff.mp here).1
  rw [List.getElem?_eq_getElem bound] at here
  have perm : s.promises.Perm (p :: s.promises.eraseIdx index) := by
    rw [← Option.some.inj here]
    exact (List.getElem_cons_eraseIdx_perm bound).symm
  exact h.perm ((perm.append_left s.stack).trans List.perm_middle)

theorem step_inv {mode : Mode} {e : Event Data} {t : System Data} (careful : Careful s e) (h : s.Inv)
    (ht : step mode s e = some t) : t.Inv := by
  cases e with
  | submit call =>
    simp only [step, Option.ite_none_right_eq_some, Option.some.injEq] at ht
    obtain ⟨_, rfl⟩ := ht
    exact submit_inv h careful
  | retryRead leaseCurrent =>
    simp only [step, Option.ite_none_right_eq_some, Option.some.injEq] at ht
    obtain ⟨_, rfl⟩ := ht
    exact retryRead_inv h
  | cancel =>
    simp only [step, Option.ite_none_right_eq_some, Option.some.injEq] at ht
    obtain ⟨_, rfl⟩ := ht
    exact cancel_inv h
  | revoke keepSaved =>
    simp only [step, Option.ite_none_right_eq_some, Option.some.injEq] at ht
    obtain ⟨_, rfl⟩ := ht
    exact revoke_inv h
  | release =>
    simp only [step, Option.ite_none_right_eq_some, Option.some.injEq] at ht
    obtain ⟨_, rfl⟩ := ht
    split
    · exact h
    · exact cancel_inv h
  | changed =>
    simp only [step, Option.ite_none_right_eq_some, Option.some.injEq] at ht
    obtain ⟨_, rfl⟩ := ht
    have ledger : Ledger { s.store with inputRevision := s.store.inputRevision + 1 } := { h.toLedger with }
    have changed : Inv { s.store with
        inputRevision := s.store.inputRevision + 1
        snapshot := { s.store.snapshot with dirty := true } } s.acts :=
      h.frame rfl id (fun _ => id) rfl rfl rfl rfl rfl (ledger.publish _ rfl) h.live
    exact changed.call (q := .done) rfl nofun
  | abortLease lease =>
    simp only [step, Option.ite_none_right_eq_some, Option.some.injEq] at ht
    obtain ⟨⟨_, known, _⟩, rfl⟩ := ht
    exact abortLease_inv h known
  | «return» navigationCurrent =>
    simp only [step] at ht
    split at ht
    next => cases ht
    next p rest here => exact resume_inv (h.called here) ht
  | settle index outcome navigationCurrent =>
    simp only [step] at ht
    split at ht
    next p empty here =>
      refine continue_inv (h.awaited here) ht fun x m rejected => ?_
      subst rejected
      have careful := careful x m
      rw [here] at careful
      exact ⟨fun this => careful.1 (this ▸ rfl), fun this => careful.2 (this ▸ rfl)⟩
    next => cases ht

theorem run_inv {mode : Mode} {es : List (Event Data)} {s : System Data}
    (careful : Run.Throughout (step mode) Careful .initial es) (run : Run.run (step mode) .initial es = some s) : s.Inv :=
  Run.keeps_throughout (fun _ _ _ careful h step => step_inv careful h step) Inv.initial careful run

end

end Fluo.React.FormStore
