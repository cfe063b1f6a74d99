import Mathlib.Data.List.Nodup
import Fluo.React.FormStoreControl

/-!
# Outcomes of a form

What is posted and recorded in a run, and when a run of the form keeps what it
promises about them.
-/

namespace Fluo.React.FormStore

variable {Data : Type}

/-! ## What steps record -/

/-- What is to be recorded of a result: the result itself, or the value of the decoder
that the environment has for it. A decoder that throws makes a protocol failure of it,
an uncertain one where something was saved; a result that is read needs a decoder of its
own where the saved ones have one. -/
inductive ReadAs (environment : Environment Data) : Mutation Data → Mutation Data → Prop where
  | saved {destination : Data} {followUp : SavedFollowUp} {data session : Option Data} :
      environment.decodeSaved = none →
      ReadAs environment (.saved destination followUp data session) (.saved destination followUp data session)
  | savedDecoded {destination value : Data} {followUp : SavedFollowUp} {data session : Option Data}
      {decode : Option Data → Option Data} : environment.decodeSaved = some decode → decode data = some value →
      ReadAs environment (.saved destination followUp data session) (.saved destination followUp (some value) session)
  | savedUndecodable {destination : Data} {followUp : SavedFollowUp} {data session : Option Data}
      {decode : Option Data → Option Data} : environment.decodeSaved = some decode → decode data = none →
      ReadAs environment (.saved destination followUp data session) (.uncertain .protocol)
  | read {data : Data} : environment.decodeRead = none → environment.decodeSaved = none →
      ReadAs environment (.read data) (.read data)
  | readDecoded {data value : Data} {decode : Data → Option Data} : environment.decodeRead = some decode →
      decode data = some value → ReadAs environment (.read data) (.read value)
  | readUndecodable {data : Data} {decode : Data → Option Data} : environment.decodeRead = some decode →
      decode data = none → ReadAs environment (.read data) (.error .protocol)
  | readUnvalidated {data : Data} {decode : Option Data → Option Data} : environment.decodeRead = none →
      environment.decodeSaved = some decode → ReadAs environment (.read data) (.error .protocol)
  | error {reason : FailureReason} : ReadAs environment (.error reason) (.error reason)
  | validation {errors : Data} : ReadAs environment (.validation errors) (.validation errors)
  | auth {reason : Data} : ReadAs environment (.auth reason) (.auth reason)
  | rejected : ReadAs environment .rejected .rejected
  | uncertain {reason : FailureReason} : ReadAs environment (.uncertain reason) (.uncertain reason)

theorem decode_readAs (environment : Environment Data) (m : Mutation Data) : ReadAs environment m (environment.decode m) := by
  cases m with
  | saved destination followUp data session =>
    rw [Environment.decode]
    split
    next none => exact .saved none
    next decode some =>
      split
      next value decoded => exact .savedDecoded some decoded
      next thrown => exact .savedUndecodable some thrown
  | read data =>
    rw [Environment.decode]
    split
    next decode some =>
      cases decoded : decode data with
      | some value => exact .readDecoded some decoded
      | none => exact .readUndecodable some decoded
    next none =>
      cases saved : environment.decodeSaved with
      | none => exact .read none saved
      | some decode => exact .readUnvalidated none saved
  | error => exact .error
  | validation => exact .validation
  | auth => exact .auth
  | rejected => exact .rejected
  | uncertain => exact .uncertain

/-- A step records nothing, or the outcome of the submission that is pending: what
has arrived for it, or that it was cancelled. -/
structure Effect (Arrived : Mutation Data → Prop) (s t : Store Data) : Prop where
  posts : t.posts = s.posts
  outcome : (t.records = s.records ∧ t.answers = s.answers ∧
      (t.snapshot.mutation = s.snapshot.mutation ∨ t.snapshot.mutation = none)) ∨
    s.snapshot.pending = true ∧
      ∃ m, t.records = (s.generation, m) :: s.records ∧ t.snapshot.mutation = some m ∧
        (t.answers = s.answers ∧ (m = .error .cancelled ∨ m = .uncertain .cancelled) ∨
          t.answers = (s.generation, m) :: s.answers ∧ Arrived m)

structure Keeps (s t : Store Data) : Prop where
  posts : t.posts = s.posts
  records : t.records = s.records
  answers : t.answers = s.answers
  mutation : t.snapshot.mutation = s.snapshot.mutation

theorem Keeps.effect {s t : Store Data} {Arrived : Mutation Data → Prop} (h : Keeps s t) : Effect Arrived s t :=
  ⟨h.posts, .inl ⟨h.records, h.answers, .inl h.mutation⟩⟩

section

variable {s : System Data} {p : Point Data} {Arrived : Mutation Data → Prop}

theorem cancel_effect (s : Store Data) : Effect Arrived s s.cancel := by
  refine ⟨rfl, ?_⟩
  cases pending : s.snapshot.pending with
  | true =>
    have cancelled : s.cancelledMutation = .error .cancelled ∨ s.cancelledMutation = .uncertain .cancelled := by
      unfold Store.cancelledMutation
      split
      · exact .inl rfl
      · exact .inr rfl
    exact .inr ⟨rfl, s.cancelledMutation, if_pos pending, if_pos pending, .inl ⟨rfl, cancelled⟩⟩
  | false =>
    have notPending : ¬s.snapshot.pending = true := by simp [pending]
    exact .inl ⟨if_neg notPending, rfl, .inl (if_neg notPending)⟩

theorem borrow_keeps (s : Store Data) (environment : Environment Data) : Keeps s (s.borrow environment) := by
  rw [borrow_eq]
  exact ⟨rfl, rfl, rfl, rfl⟩

theorem accept_effect (call : Call Data) : Effect Arrived s.store (s.accept call).store := by
  unfold System.accept
  split
  · have keeps := borrow_keeps s.store call.environment
    exact ⟨keeps.posts, .inl ⟨keeps.records, keeps.answers, .inl keeps.mutation⟩⟩
  · exact ⟨rfl, .inl ⟨rfl, rfl, .inr rfl⟩⟩

theorem finish_keeps (x : Submission Data) (m : Mutation Data) : Keeps s.store (s.finish x m).store := by
  unfold System.finish
  split <;> exact ⟨rfl, rfl, rfl, rfl⟩

theorem endRead_keeps (r : Reading) : Keeps s.store (s.endRead r).store := by
  unfold System.endRead
  split <;> exact ⟨rfl, rfl, rfl, rfl⟩

theorem refuseSession_keeps (x : Submission Data) : Keeps s.store (s.refuseSession x).store := by
  unfold System.refuseSession
  split <;> exact ⟨rfl, rfl, rfl, rfl⟩

theorem approved_keeps (r : Reading) (result : FollowUp) : Keeps s.store (s.approved r result).store := by
  unfold System.approved
  split
  · exact endRead_keeps r
  · exact ⟨rfl, rfl, rfl, rfl⟩

theorem allowed_keeps (mode : Mode) (navigationCurrent allowed : Bool) (r : Reading) :
    Keeps s.store (s.allowed mode navigationCurrent r allowed).store := by
  unfold System.allowed
  split
  next => exact endRead_keeps r
  next => split <;> [skip; split] <;> exact ⟨rfl, rfl, rfl, rfl⟩

theorem respond_effect {x : Submission Data} {m : Mutation Data} (current : x.id = s.store.generation)
    (pending : s.store.snapshot.pending = true) (arrived : Arrived m) : Effect Arrived s.store (s.respond x m).store := by
  have recorded (t : System Data) (keeps : Keeps (s.store.record x m) t.store) : Effect Arrived s.store t.store :=
    ⟨keeps.posts, .inr ⟨pending, m, by rw [keeps.records, ← current]; rfl, keeps.mutation,
      .inr ⟨by rw [keeps.answers, ← current]; rfl, arrived⟩⟩⟩
  have finished := recorded _ (finish_keeps (s := s.update (·.record x m)) x m)
  unfold System.respond
  split
  next =>
    split
    · exact recorded _ ⟨rfl, rfl, rfl, rfl⟩
    · exact finished
  next =>
    split
    · exact recorded _ ⟨rfl, rfl, rfl, rfl⟩
    · exact finished
  next => exact finished

theorem dispatch_posts {x : Submission Data} :
    (s.dispatch x).store.posts = s.store.posts ∨
      x.reading = false ∧ (s.dispatch x).store.posts = x.id :: s.store.posts := by
  unfold System.dispatch
  split
  next =>
    cases reading : x.reading with
    | true => exact .inl (by simp [System.update, System.wait])
    | false => exact .inr ⟨rfl, by simp [System.update, System.wait]⟩
  next => exact .inl rfl

theorem dispatch_records {x : Submission Data} :
    (s.dispatch x).store.records = s.store.records ∧ (s.dispatch x).store.answers = s.store.answers ∧
      (s.dispatch x).store.snapshot = s.store.snapshot := by
  unfold System.dispatch
  split
  next => cases reading : x.reading <;> simp [System.update, System.wait]
  next => exact ⟨rfl, rfl, rfl⟩

/-- Posts are dispatched from one place, the outcome of the pending submission is
the only one that a step records. -/
theorem resume_effect {mode : Mode} {navigationCurrent : Bool} {t : System Data}
    (step : s.resume mode navigationCurrent p = some t) :
    Effect Arrived s.store t.store ∨ ∃ x, p = .invalidated x ∧ x.reading = false ∧ t.store.posts = x.id :: s.store.posts ∧
      t.store.records = s.store.records ∧ t.store.answers = s.store.answers ∧ t.store.snapshot = s.store.snapshot := by
  cases p with
  | superseding call cancelling =>
    cases step
    split
    · exact .inl (accept_effect call)
    · exact .inl (Keeps.effect ⟨rfl, rfl, rfl, rfl⟩)
  | pendingPublished x =>
    simp only [System.resume] at step
    split at step <;> cases step
    next =>
      split
      next reading =>
        have := dispatch_posts (s := s) (x := x)
        obtain ⟨records, answers, snapshot⟩ := dispatch_records (s := s) (x := x)
        exact .inl (Keeps.effect ⟨this.resolve_right fun other => absurd (reading.symm.trans other.1) (by decide), records, answers,
          by rw [snapshot]⟩)
      next => exact .inl (Keeps.effect ⟨rfl, rfl, rfl, rfl⟩)
    next => exact .inl (Keeps.effect ⟨rfl, rfl, rfl, rfl⟩)
  | invalidated x =>
    cases step
    obtain ⟨records, answers, snapshot⟩ := dispatch_records (s := s) (x := x)
    rcases dispatch_posts (s := s) (x := x) with same | ⟨posting, posted⟩
    · exact .inl (Keeps.effect ⟨same, records, answers, by rw [snapshot]⟩)
    · exact .inr ⟨x, rfl, posting, posted, records, answers, snapshot⟩
  | published x m => cases m <;> cases step <;> exact .inl (Keeps.effect ⟨rfl, rfl, rfl, rfl⟩)
  | savedInvalidated x navigate => cases step; split <;> exact .inl (Keeps.effect ⟨rfl, rfl, rfl, rfl⟩)
  | readPublished r =>
    cases step
    split
    · exact .inl (endRead_keeps r).effect
    · split
      · exact .inl (Keeps.effect ⟨rfl, rfl, rfl, rfl⟩)
      · cases mode <;> exact .inl (Keeps.effect ⟨rfl, rfl, rfl, rfl⟩)
  | readSettled r => cases step; exact .inl (endRead_keeps r).effect
  | revokeCancelling =>
    cases step
    refine .inl ⟨rfl, .inl ⟨rfl, rfl, ?_⟩⟩
    cases mutation : s.store.snapshot.mutation with
    | none => exact .inr (by simp [System.push, System.update, Store.revoked, mutation])
    | some m => cases m <;> simp [System.push, System.update, Store.revoked, mutation]
  | sessionChanging | sessionPublished | sessionCancelled | authRejecting | allowing | approving | cancelReleasing
  | cancelAborting | done => cases step; exact .inl (Keeps.effect ⟨rfl, rfl, rfl, rfl⟩)
  | response | session | auth | allow | approve | readDone => cases step

theorem continue_effect {mode : Mode} {navigationCurrent : Bool} {outcome : Outcome Data} {t : System Data}
    (h : Inv s.store (p :: s.acts)) (step : s.continue mode navigationCurrent p outcome = some t) :
    Effect (fun m => ∃ x arrived, p = .response x ∧ outcome = .response arrived ∧ ReadAs x.environment arrived m)
      s.store t.store := by
  have same : Keeps s.store s.store := ⟨rfl, rfl, rfl, rfl⟩
  cases p with
  | response x =>
    cases outcome with
    | response m =>
      cases step
      split
      next current =>
        have pending : s.store.Pending x := h.fits _ List.mem_cons_self (congrArg some current.1)
        exact respond_effect current.1 pending.pending ⟨x, m, rfl, rfl, decode_readAs _ m⟩
      next => exact same.effect
    | aborted =>
      simp only [System.continue, Option.ite_none_right_eq_some, Option.some.injEq] at step
      obtain ⟨_, rfl⟩ := step
      exact same.effect
    | fulfilled | approved | rejected => cases step
  | session x m =>
    cases outcome with
    | fulfilled value =>
      cases value with
      | false => cases step; exact (refuseSession_keeps x).effect
      | true =>
        cases step
        split
        · have keeps := borrow_keeps s.store x.environment
          have finished := finish_keeps (s := s.update (·.borrow x.environment)) x m
          exact Keeps.effect ⟨finished.posts.trans keeps.posts, finished.records.trans keeps.records,
            finished.answers.trans keeps.answers, finished.mutation.trans keeps.mutation⟩
        · exact Keeps.effect ⟨rfl, rfl, rfl, rfl⟩
    | aborted =>
      simp only [System.continue, Option.ite_none_right_eq_some, Option.some.injEq] at step
      obtain ⟨_, rfl⟩ := step
      exact (refuseSession_keeps x).effect
    | rejected => cases step; exact same.effect
    | response | approved => cases step
  | auth x m =>
    cases outcome with
    | fulfilled value => cases step; exact (finish_keeps x m).effect
    | aborted =>
      simp only [System.continue, Option.ite_none_right_eq_some, Option.some.injEq] at step
      obtain ⟨_, rfl⟩ := step
      exact (finish_keeps x m).effect
    | rejected => cases step; exact same.effect
    | response | approved => cases step
  | readDone =>
    cases outcome with
    | fulfilled value => cases step; exact Keeps.effect ⟨rfl, rfl, rfl, rfl⟩
    | response | approved | rejected | aborted => cases step
  | allow r =>
    cases outcome with
    | fulfilled value => cases step; exact (allowed_keeps ..).effect
    | aborted =>
      simp only [System.continue, Option.ite_none_right_eq_some, Option.some.injEq] at step
      obtain ⟨_, rfl⟩ := step
      exact (allowed_keeps ..).effect
    | rejected => cases step; exact (approved_keeps ..).effect
    | response | approved => cases step
  | approve r =>
    cases outcome with
    | approved result =>
      simp only [System.continue] at step
      split at step <;> cases step
      exact (approved_keeps ..).effect
    | rejected => cases step; exact (approved_keeps ..).effect
    | aborted =>
      simp only [System.continue, Option.ite_none_right_eq_some, Option.some.injEq] at step
      obtain ⟨_, rfl⟩ := step
      exact (approved_keeps ..).effect
    | response | fulfilled => cases step
  | superseding | pendingPublished | invalidated | sessionChanging | sessionPublished | sessionCancelled | authRejecting
  | published | savedInvalidated | readPublished | allowing | approving | readSettled | cancelReleasing | cancelAborting
  | revokeCancelling | done => cases outcome <;> cases step

end

/-- The event brings the response that a submission waits for, to be recorded as `m`. -/
def Arrives (s : System Data) (e : Event Data) (m : Mutation Data) : Prop :=
  ∃ x index arrived navigationCurrent, e = .settle index (.response arrived) navigationCurrent ∧
    s.promises[index]? = some (.response x) ∧ ReadAs x.environment arrived m

theorem step_effect {mode : Mode} {e : Event Data} {s t : System Data} (h : s.Inv) (ht : step mode s e = some t) :
    Effect (Arrives s e) s.store t.store ∨ ∃ x rest, (∃ navigationCurrent, e = .return navigationCurrent) ∧
      s.stack = .invalidated x :: rest ∧ x.reading = false ∧ t.store.posts = x.id :: s.store.posts ∧
      t.store.records = s.store.records ∧ t.store.answers = s.store.answers ∧ t.store.snapshot = s.store.snapshot := by
  have same : Keeps s.store s.store := ⟨rfl, rfl, rfl, rfl⟩
  cases e with
  | submit call =>
    simp only [step, Option.ite_none_right_eq_some, Option.some.injEq] at ht
    obtain ⟨_, rfl⟩ := ht
    refine .inl ?_
    unfold System.submit
    dsimp only
    split
    next => exact same.effect
    next =>
      split
      next =>
        cases mode with
        | navigation => exact Keeps.effect ⟨rfl, rfl, rfl, rfl⟩
        | background => exact cancel_effect s.store
      next => exact accept_effect call
  | retryRead leaseCurrent =>
    simp only [step, Option.ite_none_right_eq_some, Option.some.injEq] at ht
    obtain ⟨_, rfl⟩ := ht
    refine .inl (Keeps.effect ?_)
    unfold System.retryRead
    split
    next environment _ _ =>
      split
      next => exact same
      next =>
        dsimp only
        split <;> exact { borrow_keeps s.store _ with }
    next => exact same
  | cancel =>
    simp only [step, Option.ite_none_right_eq_some, Option.some.injEq] at ht
    obtain ⟨_, rfl⟩ := ht
    exact .inl (cancel_effect s.store)
  | revoke keepSaved =>
    simp only [step, Option.ite_none_right_eq_some, Option.some.injEq] at ht
    obtain ⟨_, rfl⟩ := ht
    cases keepSaved with
    | true => exact .inl (Keeps.effect ⟨rfl, rfl, rfl, rfl⟩)
    | false => exact .inl { cancel_effect { s.store with transferred := false } with }
  | release =>
    simp only [step, Option.ite_none_right_eq_some, Option.some.injEq] at ht
    obtain ⟨_, rfl⟩ := ht
    split
    · exact .inl same.effect
    · exact .inl (cancel_effect s.store)
  | changed =>
    simp only [step, Option.ite_none_right_eq_some, Option.some.injEq] at ht
    obtain ⟨_, rfl⟩ := ht
    exact .inl (Keeps.effect ⟨rfl, rfl, rfl, rfl⟩)
  | abortLease lease =>
    simp only [step, Option.ite_none_right_eq_some, Option.some.injEq] at ht
    obtain ⟨_, rfl⟩ := ht
    split
    · exact .inl { cancel_effect { s.store with
        abortedLeases := lease :: s.store.abortedLeases, transferred := false } with }
    · exact .inl (Keeps.effect ⟨rfl, rfl, rfl, rfl⟩)
  | «return» navigationCurrent =>
    simp only [step] at ht
    split at ht
    next => cases ht
    next p rest here =>
      refine (resume_effect ht).imp_right ?_
      rintro ⟨x, this, posting⟩
      exact ⟨x, rest, ⟨navigationCurrent, rfl⟩, by rw [here, this], posting⟩
  | settle index outcome navigationCurrent =>
    simp only [step] at ht
    split at ht
    next p empty here =>
      have effect := continue_effect (s := { s with promises := s.promises.eraseIdx index }) (h.awaited here) ht
      refine .inl ⟨effect.posts, effect.outcome.imp_right ?_⟩
      rintro ⟨pending, m, records, mutation, answers⟩
      refine ⟨pending, m, records, mutation, answers.imp_right ?_⟩
      rintro ⟨grown, x, arrived, rfl, rfl, reads⟩
      exact ⟨grown, x, index, arrived, navigationCurrent, rfl, here, reads⟩
    next => cases ht

/-! ## Superseded operations -/

theorem resume_superseded {mode : Mode} {navigationCurrent : Bool} {s t : System Data} {p : Point Data} {g : Nat}
    (hp : p.id = some g) (superseded : g ≠ s.store.generation) (step : s.resume mode navigationCurrent p = some t) :
    t.store.snapshot = s.store.snapshot := by
  cases p with
  | superseding call cancelling =>
    cases hp
    cases step
    rw [if_neg (Ne.symm superseded)]
  | pendingPublished x =>
    cases hp
    simp only [System.resume, superseded, false_and, ↓reduceIte, Option.some.injEq] at step
    rw [step]
  | invalidated x => cases step; exact dispatch_records.2.2
  | published x m => cases m <;> cases step <;> rfl
  | savedInvalidated x navigate =>
    cases hp
    cases step
    rw [if_neg superseded]
  | readPublished r =>
    cases hp
    cases step
    rw [if_pos (.inl superseded)]
    unfold System.endRead
    split <;> rfl
  | sessionChanging | sessionPublished | authRejecting | allowing | approving => cases step; rfl
  | response | session | auth | allow | approve => cases step
  | readDone | sessionCancelled | readSettled | cancelReleasing | cancelAborting | revokeCancelling | done => cases hp

theorem continue_superseded {mode : Mode} {navigationCurrent : Bool} {outcome : Outcome Data} {s t : System Data}
    {p : Point Data} {g : Nat} (hp : p.id = some g) (superseded : g ≠ s.store.generation)
    (step : s.continue mode navigationCurrent p outcome = some t) : t.store.snapshot = s.store.snapshot := by
  have endRead (r : Reading) : (s.endRead r).store.snapshot = s.store.snapshot := by
    unfold System.endRead
    split <;> rfl
  cases p with
  | response x =>
    cases hp
    have notCurrent : ¬s.store.Current x := fun current => superseded current.1
    cases outcome with
    | response m =>
      cases step
      rw [if_neg notCurrent]
    | aborted =>
      simp only [System.continue, Option.ite_none_right_eq_some, Option.some.injEq] at step
      rw [← step.2]
    | fulfilled | approved | rejected => cases step
  | session x m =>
    cases hp
    have refuse : (s.refuseSession x).store.snapshot = s.store.snapshot := by
      unfold System.refuseSession
      rw [if_neg superseded]
      rfl
    cases outcome with
    | fulfilled value =>
      cases value with
      | false => cases step; exact refuse
      | true => cases step; rw [if_neg superseded]; rfl
    | aborted =>
      simp only [System.continue, Option.ite_none_right_eq_some, Option.some.injEq] at step
      rw [← step.2]
      exact refuse
    | rejected => cases step; rfl
    | response | approved => cases step
  | auth x m =>
    cases hp
    have finish : (s.finish x m).store.snapshot = s.store.snapshot := by
      unfold System.finish
      rw [if_neg superseded]
    cases outcome with
    | fulfilled value => cases step; exact finish
    | aborted =>
      simp only [System.continue, Option.ite_none_right_eq_some, Option.some.injEq] at step
      rw [← step.2]
      exact finish
    | rejected => cases step; rfl
    | response | approved => cases step
  | allow r =>
    cases hp
    have allowed (value : Bool) : (s.allowed mode navigationCurrent r value).store.snapshot = s.store.snapshot := by
      unfold System.allowed
      rw [if_pos superseded]
      exact endRead r
    have failed : (s.approved r .error).store.snapshot = s.store.snapshot := by
      unfold System.approved
      rw [if_pos superseded]
      exact endRead r
    cases outcome with
    | fulfilled value => cases step; exact allowed value
    | aborted =>
      simp only [System.continue, Option.ite_none_right_eq_some, Option.some.injEq] at step
      rw [← step.2]
      exact allowed false
    | rejected => cases step; exact failed
    | response | approved => cases step
  | approve r =>
    cases hp
    have approved (result : FollowUp) : (s.approved r result).store.snapshot = s.store.snapshot := by
      unfold System.approved
      rw [if_pos superseded]
      exact endRead r
    cases outcome with
    | approved result =>
      simp only [System.continue] at step
      split at step <;> cases step
      exact approved result
    | aborted =>
      simp only [System.continue, Option.ite_none_right_eq_some, Option.some.injEq] at step
      rw [← step.2]
      exact approved .cancelled
    | rejected => cases step; exact approved .error
    | response | fulfilled => cases step
  | superseding | pendingPublished | invalidated | sessionChanging | sessionPublished | authRejecting | published
  | savedInvalidated | readPublished | allowing | approving => cases outcome <;> cases step
  | readDone | sessionCancelled | readSettled | cancelReleasing | cancelAborting | revokeCancelling | done => cases hp

/-! ## The outcome of a run -/

/-- A submission that is being sent, or whose response is awaited. -/
def Point.Outstanding (s : Store Data) : Point Data → Bool
  | .pendingPublished x | .invalidated x | .response x => decide (x.id = s.generation)
  | _ => false

theorem outstanding_le {s : System Data} (h : s.Inv) : s.acts.countP (·.Outstanding s.store) ≤ 1 := by
  have owns : ∀ p : Point Data, p.Outstanding s.store = true → (p.id == some s.store.generation) = true := by
    intro p outstanding
    cases p <;> simp_all [Point.Outstanding, Point.id]
  calc s.acts.countP (·.Outstanding s.store)
    _ ≤ s.acts.countP (·.id == some s.store.generation) := List.countP_mono_left fun p _ => owns p
    _ = (s.acts.filterMap Point.id).count s.store.generation := by
      rw [List.count, List.countP_filterMap]
      refine List.countP_congr fun p _ => ?_
      cases p.id <;> simp
    _ ≤ 1 := List.nodup_iff_count_le_one.mp h.ids _

/-- A navigation form skips a submission while another one is pending. -/
theorem submit_skipped {s t : System Data} {call : Call Data}
    (busy : s.store.snapshot.pending = true ∨ s.store.snapshot.followUp = some .pending)
    (ht : step .navigation s (.submit call) = some t) :
    t.store = s.store ∨ t.store = s.store.publish { s.store.snapshot with skipped := s.store.snapshot.skipped + 1 } := by
  simp only [step, Option.ite_none_right_eq_some, Option.some.injEq] at ht
  obtain ⟨_, rfl⟩ := ht
  unfold System.submit
  dsimp only
  rw [if_pos busy]
  split
  · exact .inl rfl
  · exact .inr rfl

/-- A result that arrives before its submission is cancelled is recorded. -/
theorem arrived_recorded {mode : Mode} {s t : System Data} {x : Submission Data} {m : Mutation Data} {index : Nat}
    {navigationCurrent : Bool} (h : s.Inv) (here : s.promises[index]? = some (.response x))
    (notCancelled : x.id = s.store.generation)
    (ht : step mode s (.settle index (.response m) navigationCurrent) = some t) :
    t.store.records = (x.id, x.environment.decode m) :: s.store.records := by
  have fits : s.store.Pending x := h.fits _ (List.mem_append_right _ (List.mem_of_getElem? here)) (congrArg some notCancelled)
  have current : s.store.Current x := by
    refine ⟨notCancelled, fun aborted => ?_, fun lease mem => h.live lease ?_⟩
    · exact Nat.lt_irrefl _ (notCancelled ▸ h.aborted _ aborted)
    · rw [h.held, fits.lease]
      exact Option.mem_toList.mpr mem
  have responds (t : System Data) (records : t.store = s.store) :
      (t.respond x (x.environment.decode m)).store.records = (x.id, x.environment.decode m) :: s.store.records := by
    have finished := finish_keeps (s := t.update (·.record x (x.environment.decode m))) x (x.environment.decode m)
    have recorded : (t.store.record x (x.environment.decode m)).records = (x.id, x.environment.decode m) :: s.store.records := by
      rw [records]
      rfl
    unfold System.respond
    split
    next =>
      split
      · exact recorded
      · exact finished.records.trans recorded
    next =>
      split
      · exact recorded
      · exact finished.records.trans recorded
    next => exact finished.records.trans recorded
  simp only [step] at ht
  split at ht
  next p _ here' =>
    obtain rfl : .response x = p := by rw [here] at here'; exact Option.some.inj here'
    cases ht
    rw [if_pos current]
    exact responds _ rfl
  next => cases ht

/-- A form is posted and the server rejects it. -/
def rejectedOnce : List (Event Unit) :=
  [.submit ⟨false, ⟨true, false, false, none, none⟩, true⟩, .return true, .return true,
    .settle 0 (.response .rejected) true, .return true]

theorem rejectedOnce_careful : Run.Throughout (step .navigation) Careful .initial rejectedOnce := by
  have idle : (System.initial : System Unit).NoLeasedAuth := by
    rintro x m (mem | mem) <;> cases mem
  refine Run.throughout_cons idle rfl ?_
  refine Run.throughout_cons trivial rfl ?_
  refine Run.throughout_cons trivial rfl ?_
  refine Run.throughout_cons trivial rfl ?_
  exact Run.throughout_cons trivial rfl trivial

end Fluo.React.FormStore
