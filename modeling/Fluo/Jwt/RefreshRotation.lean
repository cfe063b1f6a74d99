import Fluo.Jwt.RefreshToken

/-!
# Refresh rotation

Each refresh token is exchanged once, and a revocation is final when no rotation
has consumed a token without its successor being saved.
-/

namespace Fluo.Jwt

open Fluo.Run

variable {store : RefreshTokenStore} {expiresInSeconds : Nat}

/-- The claims and the next token of a call that has not saved it. -/
def RefreshCall.next? : RefreshCall → Option (RefreshTokenClaims × RefreshTokenRecord)
  | .prepared claims next | .consumed claims next => some (claims, next)
  | _ => none

/-- The claims of the token that a call has spent. -/
def RefreshCall.spent? : RefreshCall → Option RefreshTokenClaims
  | .consumed claims _ | .exchanged claims _ => some claims
  | _ => none

/-! ## What a step can do -/

/-- A step that spends no token and adds no record. -/
structure Quiet (store : RefreshTokenStore) (call call' : RefreshCall) (records records' : store.State) : Prop where
  next : call'.next? = none
  spent : call'.spent? = none
  shrinks : ∀ id record, store.find records' id = some record → store.find records id = some record
  compromised : ∀ claims, call' = .compromised claims → ∃ record, store.find records claims.jti = some record ∧
    record.subject = claims.sub ∧ record.family = claims.family
  familyRevoked : ∀ claims, call' = .familyRevoked claims → call = .compromised claims ∧
    ∀ id record, store.find records' id = some record →
      record.family ≠ claims.family ∨ store.revokeByFamily = none ∧ record.subject ≠ claims.sub
  subjectRevoked : ∀ subject, call' = .subjectRevoked subject → call = .revokingSubject subject ∧
    ∀ id record, store.find records' id = some record → record.subject ≠ subject
  reuseDetected : ∀ claims, call' = .reuseDetected claims → call = .familyRevoked claims
  revokedAll : ∀ subject, call' = .revokedAll subject → call = .subjectRevoked subject

/-- A step that spends the token of a call. -/
structure Spends (store : RefreshTokenStore) (claims : RefreshTokenClaims) (next : RefreshTokenRecord) (call' : RefreshCall)
    (records records' : store.State) (record : RefreshTokenRecord) : Prop where
  found : store.find records claims.jti = some record
  unused : record.used = false
  subject : record.subject = claims.sub
  family : record.family = claims.family
  effect : (call' = .exchanged claims next ∧ store.rotate.isSome = true ∧ ∀ id, store.find records' id =
      if id = next.id then some next else if id = claims.jti then some { record with used := true }
      else store.find records id) ∨
    (call' = .consumed claims next ∧ store.rotate = none ∧ ∀ id, store.find records' id =
      if id = claims.jti then some { record with used := true } else store.find records id)

theorem refuse_quiet {claims : RefreshTokenClaims} {call : RefreshCall} {records records' : store.State}
    {result : RefreshTokenConsumeResult} (same : ∀ id, store.find records' id = store.find records id)
    (used : result = .alreadyUsed → ∃ record, store.find records claims.jti = some record ∧
      record.subject = claims.sub ∧ record.family = claims.family) :
    Quiet store call (refuse claims result) records records' where
  next := by cases result <;> rfl
  spent := by cases result <;> rfl
  shrinks := fun id record found => same id ▸ found
  compromised := by
    intro claims' is
    cases result <;> cases is
    exact used rfl
  familyRevoked := by intro claims' is; cases result <;> cases is
  subjectRevoked := by intro subject is; cases result <;> cases is
  reuseDetected := by intro claims' is; cases result <;> cases is
  revokedAll := by intro subject is; cases result <;> cases is

theorem exchange_cases {claims : RefreshTokenClaims} {next : RefreshTokenRecord} {now : Int} {records records' : store.State}
    {call' : RefreshCall} (h : exchange store claims next now records = (call', records')) (call : RefreshCall) :
    Quiet store call call' records records' ∨ ∃ record, Spends store claims next call' records records' record := by
  unfold exchange at h
  dsimp only at h
  split at h
  · next _ rotate capable =>
    split at h
    · next taken =>
      cases h
      obtain ⟨record, found, unused, describes, after⟩ := store.rotate_consumed rotate capable _ _ _ taken
      exact .inr ⟨record, found, unused, describes.1, describes.2, .inl ⟨rfl, by rw [capable]; rfl, after⟩⟩
    · next refused taken =>
      cases h
      obtain ⟨same, used⟩ := store.rotate_refused rotate capable _ _ _ _ taken refused
      exact .inl (refuse_quiet same used)
  · next consume none' capable =>
    split at h
    · next taken =>
      cases h
      obtain ⟨record, found, unused, describes, after⟩ := store.consume_consumed consume capable _ _ _ taken
      exact .inr ⟨record, found, unused, describes.1, describes.2, .inr ⟨rfl, none', after⟩⟩
    · next refused taken =>
      cases h
      obtain ⟨same, used⟩ := store.consume_refused consume capable _ _ _ _ taken refused
      exact .inl (refuse_quiet same used)
  · cases h
    exact .inl ⟨rfl, rfl, fun _ _ found => found, nofun, nofun, nofun, nofun, nofun⟩

/-- A step is quiet, draws the next token, spends the token, or saves the next one. -/
theorem proceed_cases {call call' : RefreshCall} {records records' : store.State} {step : RefreshStep}
    {drawn : Option String} (h : proceed store expiresInSeconds call records step = some (call', records', drawn)) :
    (drawn = none ∧ Quiet store call call' records records') ∨
    (∃ claims next tokenId, call = .verified claims ∧ call' = .prepared claims next ∧ records' = records ∧
      drawn = some tokenId ∧ next.id = tokenId ∧ next.subject = claims.sub ∧ next.family = claims.family ∧
      next.used = false) ∨
    (∃ claims next record, call = .prepared claims next ∧ drawn = none ∧
      Spends store claims next call' records records' record) ∨
    (∃ claims next, call = .consumed claims next ∧ call' = .exchanged claims next ∧ drawn = none ∧
      records' = store.save next records) := by
  cases step with
  | create tokenId now =>
    cases call <;> try cases h
    next claims =>
    rw [proceed] at h
    split at h
    · cases h
      exact .inl ⟨rfl, rfl, rfl, fun _ _ found => found, nofun, nofun, nofun, nofun, nofun⟩
    · cases h
      exact .inr (.inl ⟨claims, _, tokenId, rfl, rfl, rfl, rfl, rfl, rfl, rfl, rfl⟩)
  | exchange now =>
    cases call <;> try cases h
    next claims next =>
    rcases exchange_cases rfl (.prepared claims next) with quiet | ⟨record, spends⟩
    · exact .inl ⟨rfl, quiet⟩
    · exact .inr (.inr (.inl ⟨claims, next, record, rfl, rfl, spends⟩))
  | save =>
    cases call <;> try cases h
    next claims next => exact .inr (.inr (.inr ⟨claims, next, rfl, rfl, rfl, rfl⟩))
  | revoke =>
    cases call <;> cases h
    · next claims =>
      refine .inl ⟨rfl, rfl, rfl, fun id record found => ?_, nofun, fun claims' is => ?_, nofun, nofun, nofun⟩
      · unfold revokeCompromisedFamily at found
        split at found
        · next op capable =>
          rw [store.find_revokeByFamily op capable] at found
          exact (Option.filter_eq_some_iff.mp found).1
        · rw [store.find_revokeBySubject] at found
          exact (Option.filter_eq_some_iff.mp found).1
      · cases is
        refine ⟨rfl, fun id record found => ?_⟩
        unfold revokeCompromisedFamily at found
        split at found
        · next op capable =>
          rw [store.find_revokeByFamily op capable] at found
          exact .inl (by simpa using (Option.filter_eq_some_iff.mp found).2)
        · next incapable =>
          rw [store.find_revokeBySubject] at found
          exact .inr ⟨incapable, by simpa using (Option.filter_eq_some_iff.mp found).2⟩
    · next tokenId =>
      refine .inl ⟨rfl, rfl, rfl, fun id record found => ?_, nofun, nofun, nofun, nofun, nofun⟩
      rw [store.find_revoke] at found
      split at found
      · cases found
      · exact found
    · next subject =>
      refine .inl ⟨rfl, rfl, rfl, fun id record found => ?_, nofun, nofun, fun subject' is => ?_, nofun, nofun⟩
      · rw [store.find_revokeBySubject] at found
        exact (Option.filter_eq_some_iff.mp found).1
      · cases is
        refine ⟨rfl, fun id record found => ?_⟩
        rw [store.find_revokeBySubject] at found
        simpa using (Option.filter_eq_some_iff.mp found).2
  | settle =>
    cases call <;> cases h
    · next claims =>
      exact .inl ⟨rfl, rfl, rfl, fun _ _ found => found, nofun, nofun, nofun, fun _ is => by cases is; rfl, nofun⟩
    · next subject =>
      exact .inl ⟨rfl, rfl, rfl, fun _ _ found => found, nofun, nofun, nofun, nofun, fun _ is => by cases is; rfl⟩
  | fail =>
    cases call <;> cases h <;>
      exact .inl ⟨rfl, rfl, rfl, fun _ _ found => found, nofun, nofun, nofun, nofun, nofun⟩

inductive Started : RefreshCall → Prop
  | verified (claims : RefreshTokenClaims) : Started (.verified claims)
  | revoking (tokenId : String) : Started (.revoking tokenId)
  | revokingSubject (subject : String) : Started (.revokingSubject subject)

theorem step_cases {s t : RefreshState store} {event : RefreshEvent} (h : step store expiresInSeconds s event = some t) :
    (∃ call, Started call ∧ t = start store s call) ∨
    ∃ i next call call' records drawn, event = .proceed i next ∧ s.calls[i]? = some call ∧
      proceed store expiresInSeconds call s.records next = some (call', records, drawn) ∧
      (∀ tokenId, drawn = some tokenId → tokenId ∉ s.drawn) ∧
      t = ⟨records, s.calls.set i call', drawn.toList ++ s.drawn⟩ := by
  cases event with
  | rotateRefreshToken claims => cases h; exact .inl ⟨_, .verified claims, rfl⟩
  | revokeRefreshToken tokenId => cases h; exact .inl ⟨_, .revoking tokenId, rfl⟩
  | revokePresentedRefreshToken claims => cases h; exact .inl ⟨_, .revoking claims.jti, rfl⟩
  | revokeAllForSubject subject => cases h; exact .inl ⟨_, .revokingSubject subject, rfl⟩
  | proceed i next =>
    rw [step] at h
    split at h
    · cases h
    · next call here =>
      split at h
      · cases h
      · next call' records after =>
        cases h
        exact .inr ⟨i, next, call, call', records, none, rfl, here, after, nofun, rfl⟩
      · next call' records tokenId after =>
        split at h
        · cases h
        · next fresh =>
          cases h
          exact .inr ⟨i, next, call, call', records, some tokenId, rfl, here, after, by rintro _ ⟨⟩; exact fresh, rfl⟩

theorem getElem?_set_some {calls : List RefreshCall} {i j : Nat} {call call' : RefreshCall}
    (h : (calls.set i call')[j]? = some call) : (j = i ∧ call = call') ∨ (j ≠ i ∧ calls[j]? = some call) := by
  rw [List.getElem?_set] at h
  split at h
  · next same =>
    split at h
    · cases h
      exact .inl ⟨same.symm, rfl⟩
    · cases h
  · next other => exact .inr ⟨fun same => other same.symm, h⟩

theorem getElem?_start_some {s : RefreshState store} {j : Nat} {call call' : RefreshCall}
    (h : (start store s call').calls[j]? = some call) : (j = s.calls.length ∧ call = call') ∨ s.calls[j]? = some call := by
  rw [start, List.getElem?_append] at h
  split at h
  · exact .inr h
  · next past =>
    rw [List.getElem?_singleton] at h
    split at h
    · next first =>
      cases h
      exact .inl ⟨by omega, rfl⟩
    · cases h

/-! ## Tokens are spent once -/

/-- What a call says of the tokens it knows, for the records and the ids drawn so far. -/
structure CallValid (owner : String → String) (s : RefreshState store) (call : RefreshCall) : Prop where
  next : ∀ claims next, call.next? = some (claims, next) → next.subject = claims.sub ∧ next.family = claims.family ∧
    next.used = false ∧ next.id ∈ s.drawn ∧ store.find s.records next.id = none
  owned : ∀ claims, (∃ next, call = .consumed claims next) ∨ call = .compromised claims → owner claims.family = claims.sub
  spent : ∀ claims, call.spent? = some claims → claims.jti ∈ s.drawn ∧
    ∀ record, store.find s.records claims.jti = some record → record.used = true
  nextUnspent : ∀ claims claims' next, call.next? = some (claims, next) → call.spent? = some claims' →
    next.id ≠ claims'.jti

structure Apart (a b : RefreshCall) : Prop where
  next : ∀ claims claims' next next', a.next? = some (claims, next) → b.next? = some (claims', next') → next.id ≠ next'.id
  spent : ∀ claims claims', a.spent? = some claims → b.spent? = some claims' → claims.jti ≠ claims'.jti
  nextUnspent : ∀ claims claims' next, a.next? = some (claims, next) → b.spent? = some claims' → next.id ≠ claims'.jti
  unspentNext : ∀ claims claims' next, b.next? = some (claims, next) → a.spent? = some claims' → next.id ≠ claims'.jti

theorem Apart.symm {a b : RefreshCall} (apart : Apart a b) : Apart b a where
  next claims claims' next next' ha hb same := apart.next claims' claims next' next hb ha same.symm
  spent claims claims' ha hb same := apart.spent claims' claims hb ha same.symm
  nextUnspent := apart.unspentNext
  unspentNext := apart.nextUnspent

theorem Apart.idle {a b : RefreshCall} (next : a.next? = none) (spent : a.spent? = none) : Apart a b where
  next _ _ _ _ is := by rw [next] at is; cases is
  spent _ _ is := by rw [spent] at is; cases is
  nextUnspent _ _ _ is := by rw [next] at is; cases is
  unspentNext _ _ _ _ is := by rw [spent] at is; cases is

/-- Records are their tokens', families have one subject, and no id is in two hands. -/
structure Valid (owner : String → String) (s : RefreshState store) : Prop where
  recorded : ∀ id record, store.find s.records id = some record →
    record.id = id ∧ id ∈ s.drawn ∧ record.subject = owner record.family
  calls : ∀ (i : Nat) call, s.calls[i]? = some call → CallValid owner s call
  apart : ∀ (i j : Nat) a b, i ≠ j → s.calls[i]? = some a → s.calls[j]? = some b → Apart a b

theorem CallValid.shrink {owner : String → String} {s t : RefreshState store} {call : RefreshCall}
    (valid : CallValid owner s call) (drawn : s.drawn ⊆ t.drawn)
    (shrinks : ∀ id record, store.find t.records id = some record → store.find s.records id = some record) :
    CallValid owner t call where
  next claims next is := by
    obtain ⟨subject, family, used, mem, absent⟩ := valid.next claims next is
    refine ⟨subject, family, used, drawn mem, ?_⟩
    rw [Option.eq_none_iff_forall_ne_some]
    intro record found
    rw [shrinks _ record found] at absent
    cases absent
  owned := valid.owned
  spent claims is :=
    ⟨drawn (valid.spent claims is).1, fun record found => (valid.spent claims is).2 record (shrinks _ record found)⟩
  nextUnspent := valid.nextUnspent

theorem apart_set {calls : List RefreshCall} {i : Nat} {call' : RefreshCall}
    (apart : ∀ (j k : Nat) a b, j ≠ k → calls[j]? = some a → calls[k]? = some b → Apart a b)
    (apart' : ∀ (j : Nat) b, j ≠ i → calls[j]? = some b → Apart call' b) :
    ∀ (j k : Nat) a b, j ≠ k → (calls.set i call')[j]? = some a → (calls.set i call')[k]? = some b → Apart a b := by
  intro j k a b other hj hk
  rcases getElem?_set_some hj with ⟨rfl, rfl⟩ | ⟨awayJ, keptJ⟩
  · rcases getElem?_set_some hk with ⟨rfl, rfl⟩ | ⟨awayK, keptK⟩
    · exact absurd rfl other
    · exact apart' k b awayK keptK
  · rcases getElem?_set_some hk with ⟨rfl, rfl⟩ | ⟨-, keptK⟩
    · exact (apart' j a awayJ keptJ).symm
    · exact apart j k a b other keptJ keptK

theorem calls_set {owner : String → String} {s : RefreshState store} {i : Nat} {call' : RefreshCall}
    {records : store.State} {drawn : List String} (here : CallValid owner ⟨records, s.calls.set i call', drawn⟩ call')
    (others : ∀ (j : Nat) call, j ≠ i → s.calls[j]? = some call →
      CallValid owner ⟨records, s.calls.set i call', drawn⟩ call) :
    ∀ (j : Nat) call, (s.calls.set i call')[j]? = some call → CallValid owner ⟨records, s.calls.set i call', drawn⟩ call := by
  intro j call at_
  rcases getElem?_set_some at_ with ⟨rfl, rfl⟩ | ⟨away, at_⟩
  · exact here
  · exact others j call away at_

/-- A step to a call that neither waits with a next token nor has spent one. -/
theorem Valid.quiet {owner : String → String} {s : RefreshState store} (valid : Valid owner s) (i : Nat)
    {call call' : RefreshCall} {records : store.State} (quiet : Quiet store call call' s.records records) :
    Valid owner ⟨records, s.calls.set i call', s.drawn⟩ where
  recorded id record found := valid.recorded id record (quiet.shrinks id record found)
  calls := by
    refine calls_set ⟨?_, fun claims is => ?_, ?_, ?_⟩ fun j other _ here =>
      (valid.calls j other here).shrink (fun _ mem => mem) quiet.shrinks
    · intro claims next is
      rw [quiet.next] at is
      cases is
    · rcases is with ⟨next, rfl⟩ | is
      · have nothing := quiet.next
        cases nothing
      · obtain ⟨record, found, subject, family⟩ := quiet.compromised claims is
        rw [← subject, ← family, (valid.recorded _ record found).2.2]
    · intro claims is
      rw [quiet.spent] at is
      cases is
    · intro claims claims' next is
      rw [quiet.next] at is
      cases is
  apart := apart_set valid.apart fun _ _ _ _ => .idle quiet.next quiet.spent

/-- The next token of a call is created with an id that was never drawn. -/
theorem Valid.create {owner : String → String} {s : RefreshState store} (valid : Valid owner s) (i : Nat)
    {claims : RefreshTokenClaims} {next : RefreshTokenRecord} (fresh : next.id ∉ s.drawn)
    (subject : next.subject = claims.sub) (family : next.family = claims.family) (unused : next.used = false) :
    Valid owner ⟨s.records, s.calls.set i (.prepared claims next), next.id :: s.drawn⟩ where
  recorded id record found := by
    obtain ⟨same, mem, owned⟩ := valid.recorded id record found
    exact ⟨same, List.mem_cons_of_mem _ mem, owned⟩
  calls := by
    refine calls_set ⟨fun claims' next' is => ?_, nofun, nofun, nofun⟩ fun j other _ here =>
      (valid.calls j other here).shrink (List.subset_cons_self _ _) fun _ _ found => found
    · cases is
      refine ⟨subject, family, unused, List.mem_cons_self, ?_⟩
      rw [Option.eq_none_iff_forall_ne_some]
      exact fun record found => fresh (valid.recorded _ record found).2.1
  apart := by
    refine apart_set valid.apart fun j b _ here => ⟨?_, nofun, ?_, nofun⟩
    · intro claims' claims'' next' next'' is is' same
      cases is
      exact fresh (same ▸ ((valid.calls j b here).next _ _ is').2.2.2.1)
    · intro claims' claims'' next' is is' same
      cases is
      exact fresh (same ▸ ((valid.calls j b here).spent _ is').1)

/-- What the other calls say stays true when a token is spent. -/
theorem CallValid.spends {owner : String → String} {s : RefreshState store} {call other call' : RefreshCall} {i : Nat}
    {claims : RefreshTokenClaims} {next record : RefreshTokenRecord} {records : store.State}
    (valid : CallValid owner s other) (apart : Apart call other) (waits : call.next? = some (claims, next))
    (found : store.find s.records claims.jti = some record)
    (after : ∀ id, id ≠ next.id → store.find records id =
      if id = claims.jti then some { record with used := true } else store.find s.records id) :
    CallValid owner ⟨records, s.calls.set i call', s.drawn⟩ other where
  next claims' next' is := by
    obtain ⟨subject, family, used, mem, absent⟩ := valid.next claims' next' is
    refine ⟨subject, family, used, mem, ?_⟩
    have unspent : next'.id ≠ claims.jti := by
      intro same
      rw [same, found] at absent
      cases absent
    rw [after next'.id (apart.next _ _ _ _ waits is).symm, if_neg unspent, absent]
  owned := valid.owned
  spent claims' is := by
    obtain ⟨mem, used⟩ := valid.spent claims' is
    refine ⟨mem, fun record' found' => ?_⟩
    rw [after claims'.jti (apart.nextUnspent _ _ _ waits is).symm] at found'
    split at found'
    · cases found'
      rfl
    · exact used record' found'
  nextUnspent := valid.nextUnspent

theorem Valid.spends {owner : String → String} {s : RefreshState store} (valid : Valid owner s) {i : Nat}
    {claims : RefreshTokenClaims} {next record : RefreshTokenRecord} (here : s.calls[i]? = some (.prepared claims next))
    {call' : RefreshCall} {records : store.State} (spends : Spends store claims next call' s.records records record) :
    Valid owner ⟨records, s.calls.set i call', s.drawn⟩ := by
  obtain ⟨subject, family, unused, drawn, absent⟩ := (valid.calls i _ here).next claims next rfl
  obtain ⟨same, mem, owned⟩ := valid.recorded _ record spends.found
  have distinct : claims.jti ≠ next.id := by
    intro same
    rw [← same, spends.found] at absent
    cases absent
  have owner' : owner claims.family = claims.sub := by rw [← spends.family, ← spends.subject, owned]
  have after : ∀ id, id ≠ next.id → store.find records id =
      if id = claims.jti then some { record with used := true } else store.find s.records id := by
    intro id other
    rcases spends.effect with ⟨-, -, after⟩ | ⟨-, -, after⟩
    · rw [after, if_neg other]
    · exact after id
  have used : ∀ record', store.find records claims.jti = some record' → record'.used = true := by
    intro record' found
    rw [after _ distinct, if_pos rfl] at found
    cases found
    rfl
  have others (j : Nat) (other : RefreshCall) (away : j ≠ i) (there : s.calls[j]? = some other) :
      CallValid owner ⟨records, s.calls.set i call', s.drawn⟩ other :=
    (valid.calls j other there).spends (valid.apart i j _ _ away.symm here there) rfl spends.found after
  have unspent (j : Nat) (b : RefreshCall) (there : s.calls[j]? = some b) (claims' : RefreshTokenClaims)
      (is : b.spent? = some claims') : claims.jti ≠ claims'.jti := by
    intro same
    have used := ((valid.calls j b there).spent claims' is).2 record (same ▸ spends.found)
    rw [spends.unused] at used
    cases used
  have waiting (j : Nat) (b : RefreshCall) (there : s.calls[j]? = some b) (claims' : RefreshTokenClaims)
      (next' : RefreshTokenRecord) (is : b.next? = some (claims', next')) : next'.id ≠ claims.jti := by
    intro same
    have absent := ((valid.calls j b there).next claims' next' is).2.2.2.2
    rw [same, spends.found] at absent
    cases absent
  have recorded (id : String) (record' : RefreshTokenRecord) (other : id ≠ next.id)
      (found : store.find records id = some record') :
      record'.id = id ∧ id ∈ s.drawn ∧ record'.subject = owner record'.family := by
    rw [after id other] at found
    split at found
    · next is =>
      cases found
      exact ⟨same.trans is.symm, is ▸ mem, owned⟩
    · exact valid.recorded id record' found
  rcases spends.effect with ⟨rfl, -, rotated⟩ | ⟨rfl, -, consumed⟩
  · refine ⟨fun id record' found => ?_, calls_set ⟨nofun, (by rintro _ (⟨_, is⟩ | is) <;> cases is), ?_, nofun⟩ others,
      apart_set valid.apart fun j b away there => ⟨nofun, ?_, nofun, ?_⟩⟩
    · by_cases new : id = next.id
      · rw [rotated, if_pos new] at found
        cases found
        exact ⟨new.symm, new ▸ drawn, by rw [subject, family, owner']⟩
      · exact recorded id record' new found
    · rintro _ ⟨⟩
      exact ⟨mem, used⟩
    · rintro _ claims' ⟨⟩ is
      exact unspent j b there claims' is
    · rintro claims' _ next' is ⟨⟩
      exact waiting j b there claims' next' is
  · have old := valid.apart i
    refine ⟨fun id record' found => ?_, calls_set ⟨?_, ?_, ?_, ?_⟩ others,
      apart_set valid.apart fun j b away there => ⟨?_, ?_, ?_, ?_⟩⟩
    · by_cases new : id = next.id
      · rw [consumed, new, if_neg distinct.symm, absent] at found
        cases found
      · exact recorded id record' new found
    · rintro _ _ ⟨⟩
      exact ⟨subject, family, unused, drawn, by rw [consumed, if_neg distinct.symm, absent]⟩
    · rintro _ (⟨_, ⟨⟩⟩ | ⟨⟨⟩⟩)
      exact owner'
    · rintro _ ⟨⟩
      exact ⟨mem, used⟩
    · rintro _ _ _ ⟨⟩ ⟨⟩
      exact distinct.symm
    · rintro _ claims' _ next' ⟨⟩ is
      exact (old j _ b away.symm here there).next _ _ _ _ rfl is
    · rintro _ claims' ⟨⟩ is
      exact unspent j b there claims' is
    · rintro _ claims' _ ⟨⟩ is
      exact (old j _ b away.symm here there).nextUnspent _ _ _ rfl is
    · rintro claims' _ next' is ⟨⟩
      exact waiting j b there claims' next' is

theorem Valid.save {owner : String → String} {s : RefreshState store} (valid : Valid owner s) {i : Nat}
    {claims : RefreshTokenClaims} {next : RefreshTokenRecord} (here : s.calls[i]? = some (.consumed claims next)) :
    Valid owner ⟨store.save next s.records, s.calls.set i (.exchanged claims next), s.drawn⟩ := by
  have own := valid.calls i _ here
  obtain ⟨subject, family, unused, drawn, absent⟩ := own.next claims next rfl
  have owner' := own.owned claims (.inl ⟨next, rfl⟩)
  have apart (j : Nat) (b : RefreshCall) (away : j ≠ i) (there : s.calls[j]? = some b) :=
    valid.apart i j _ b away.symm here there
  refine ⟨fun id record found => ?_,
    calls_set ⟨nofun, (by rintro _ (⟨_, is⟩ | is) <;> cases is), ?_, nofun⟩ fun j other away there => ?_,
    apart_set valid.apart fun j b away there => ⟨nofun, ?_, nofun, ?_⟩⟩
  · rw [store.find_save] at found
    split at found
    · next new =>
      cases found
      exact ⟨new.symm, new ▸ drawn, by rw [subject, family, owner']⟩
    · exact valid.recorded id record found
  · rintro _ ⟨⟩
    refine ⟨(own.spent claims rfl).1, fun record found => ?_⟩
    rw [store.find_save, if_neg (own.nextUnspent claims claims next rfl rfl).symm] at found
    exact (own.spent claims rfl).2 record found
  · have old := valid.calls j other there
    refine ⟨fun claims' next' is => ?_, old.owned, fun claims' is => ?_, old.nextUnspent⟩
    · obtain ⟨subject', family', unused', drawn', absent'⟩ := old.next claims' next' is
      refine ⟨subject', family', unused', drawn', ?_⟩
      rw [store.find_save, if_neg ((apart j other away there).next _ _ _ _ rfl is).symm, absent']
    · refine ⟨(old.spent claims' is).1, fun record found => ?_⟩
      rw [store.find_save, if_neg ((apart j other away there).nextUnspent _ _ _ rfl is).symm] at found
      exact (old.spent claims' is).2 record found
  · rintro _ claims' ⟨⟩ is
    exact (apart j b away there).spent _ _ rfl is
  · rintro claims' _ next' is ⟨⟩
    exact (apart j b away there).unspentNext _ _ _ is rfl

theorem Started.idle {call : RefreshCall} (started : Started call) :
    call.next? = none ∧ call.spent? = none ∧ ∀ claims, call ≠ .compromised claims := by
  cases started <;> exact ⟨rfl, rfl, nofun⟩

theorem Valid.start {owner : String → String} {s : RefreshState store} (valid : Valid owner s) {call : RefreshCall}
    (started : Started call) : Valid owner (start store s call) where
  recorded := valid.recorded
  calls i other here := by
    obtain ⟨next, spent, uncompromised⟩ := started.idle
    rcases getElem?_start_some here with ⟨-, rfl⟩ | here
    · refine ⟨fun _ _ is => ?_, ?_, fun _ is => ?_, fun _ _ _ is => ?_⟩
      · rw [next] at is
        cases is
      · rintro claims (⟨next', rfl⟩ | is)
        · cases next
        · exact absurd is (uncompromised claims)
      · rw [spent] at is
        cases is
      · rw [next] at is
        cases is
    · exact (valid.calls i other here).shrink (fun _ mem => mem) fun _ _ found => found
  apart i j a b other hi hj := by
    obtain ⟨next, spent, -⟩ := started.idle
    rcases getElem?_start_some hi with ⟨-, rfl⟩ | keptI
    · exact .idle next spent
    · rcases getElem?_start_some hj with ⟨-, rfl⟩ | keptJ
      · exact (Apart.idle next spent).symm
      · exact valid.apart i j a b other keptI keptJ

theorem step_valid {owner : String → String} {s t : RefreshState store} {event : RefreshEvent} (valid : Valid owner s)
    (h : step store expiresInSeconds s event = some t) : Valid owner t := by
  rcases step_cases h with ⟨call, started, rfl⟩ | ⟨i, next, call, call', records, drawn, -, here, taken, fresh, rfl⟩
  · exact valid.start started
  · rcases proceed_cases taken with ⟨rfl, quiet⟩ | ⟨claims, next, tokenId, rfl, rfl, rfl, rfl, rfl, subject, family, unused⟩ |
      ⟨claims, next, record, rfl, rfl, spends⟩ | ⟨claims, next, rfl, rfl, rfl, rfl⟩
    · exact valid.quiet i quiet
    · exact valid.create i (fresh _ rfl) subject family unused
    · exact valid.spends here spends
    · exact valid.save here

/-! ## Revocation is final -/

/-- No token of some subjects and families is in the store, or about to be saved. -/
structure Dead (p : String → String → Prop) (s : RefreshState store) : Prop where
  records : ∀ id record, store.find s.records id = some record → ¬ p record.subject record.family
  consumed : ∀ (i : Nat) claims next, s.calls[i]? = some (.consumed claims next) → ¬ p claims.sub claims.family

/-- The subjects and families that a call has revoked. -/
def RefreshCall.Covers : RefreshCall → String → String → Prop
  | .familyRevoked claims | .reuseDetected claims => fun _ family => family = claims.family
  | .subjectRevoked subject | .revokedAll subject => fun subject' _ => subject' = subject
  | _ => fun _ _ => False

/-- The subjects and families that a call is about to revoke. -/
def RefreshCall.Targets : RefreshCall → String → String → Prop
  | .compromised claims => fun _ family => family = claims.family
  | .revokingSubject subject => fun subject' _ => subject' = subject
  | _ => fun _ _ => False

/-- A token that is spent is none of the dead ones. -/
theorem Dead.not_spends {p : String → String → Prop} {s : RefreshState store} (dead : Dead p s)
    {claims : RefreshTokenClaims} {next record : RefreshTokenRecord} {call' : RefreshCall} {records : store.State}
    (spends : Spends store claims next call' s.records records record) : ¬ p claims.sub claims.family := by
  rw [← spends.subject, ← spends.family]
  exact dead.records _ record spends.found

theorem Dead.start {p : String → String → Prop} {s : RefreshState store} (dead : Dead p s) {call : RefreshCall}
    (started : Started call) : Dead p (start store s call) where
  records := dead.records
  consumed i claims next here := by
    rcases getElem?_start_some here with ⟨-, rfl⟩ | here
    · cases started
    · exact dead.consumed i claims next here

/-- What is dead stays dead, and none of it is exchanged any more. -/
theorem Dead.step {p : String → String → Prop} {owner : String → String} {s t : RefreshState store} {event : RefreshEvent}
    (dead : Dead p s) (valid : Valid owner s) (h : step store expiresInSeconds s event = some t) :
    Dead p t ∧ ∀ (j : Nat) claims next, t.calls[j]? = some (.exchanged claims next) → p claims.sub claims.family →
      s.calls[j]? = some (.exchanged claims next) := by
  rcases step_cases h with ⟨call, started, rfl⟩ | ⟨i, _, call, call', records, drawn, -, here, taken, -, rfl⟩
  · refine ⟨dead.start started, fun j claims next there _ => ?_⟩
    rcases getElem?_start_some there with ⟨-, rfl⟩ | there
    · cases started
    · exact there
  · rcases proceed_cases taken with ⟨rfl, quiet⟩ | ⟨claims, next, tokenId, rfl, rfl, rfl, rfl, -⟩ |
      ⟨claims, next, record, rfl, rfl, spends⟩ | ⟨claims, next, rfl, rfl, rfl, rfl⟩
    · refine ⟨⟨fun id record found => dead.records id record (quiet.shrinks id record found),
        fun j claims next there => ?_⟩, fun j claims next there _ => ?_⟩
      · rcases getElem?_set_some there with ⟨-, rfl⟩ | ⟨-, there⟩
        · exact absurd quiet.next nofun
        · exact dead.consumed j claims next there
      · rcases getElem?_set_some there with ⟨-, rfl⟩ | ⟨-, there⟩
        · exact absurd quiet.spent nofun
        · exact there
    · refine ⟨⟨dead.records, fun j claims' next' there => ?_⟩, fun j claims' next' there _ => ?_⟩
      · rcases getElem?_set_some there with ⟨-, ⟨⟩⟩ | ⟨-, there⟩
        exact dead.consumed j claims' next' there
      · rcases getElem?_set_some there with ⟨-, ⟨⟩⟩ | ⟨-, there⟩
        exact there
    · have alive := dead.not_spends spends
      obtain ⟨subject, family, -, -, absent⟩ := (valid.calls i _ here).next claims next rfl
      refine ⟨⟨fun id record' found => ?_, fun j claims' next' there => ?_⟩, fun j claims' next' there hits => ?_⟩
      · have kept (found : (if id = claims.jti then some { record with used := true } else store.find s.records id) =
            some record') : ¬ p record'.subject record'.family := by
          split at found
          · cases found
            exact dead.records _ record spends.found
          · exact dead.records id record' found
        rcases spends.effect with ⟨-, -, after⟩ | ⟨-, -, after⟩
        · rw [after] at found
          split at found
          · cases found
            rw [subject, family]
            exact alive
          · exact kept found
        · rw [after] at found
          exact kept found
      · rcases getElem?_set_some there with ⟨-, rfl⟩ | ⟨-, there⟩
        · rcases spends.effect with ⟨is, -⟩ | ⟨is, -⟩ <;> cases is
          exact alive
        · exact dead.consumed j claims' next' there
      · rcases getElem?_set_some there with ⟨-, rfl⟩ | ⟨-, there⟩
        · rcases spends.effect with ⟨is, -⟩ | ⟨is, -⟩ <;> cases is
          exact absurd hits alive
        · exact there
    · have alive := dead.consumed i claims next here
      obtain ⟨subject, family, -⟩ := (valid.calls i _ here).next claims next rfl
      refine ⟨⟨fun id record found => ?_, fun j claims' next' there => ?_⟩, fun j claims' next' there hits => ?_⟩
      · rw [store.find_save] at found
        split at found
        · cases found
          rw [subject, family]
          exact alive
        · exact dead.records id record found
      · rcases getElem?_set_some there with ⟨-, ⟨⟩⟩ | ⟨-, there⟩
        exact dead.consumed j claims' next' there
      · rcases getElem?_set_some there with ⟨-, ⟨⟩⟩ | ⟨-, there⟩
        · exact absurd hits alive
        · exact there

def Final (s : RefreshState store) : Prop := ∀ (i : Nat) call, s.calls[i]? = some call → Dead call.Covers s

/-- When a family or a subject is revoked, none of its tokens is consumed with the next one not saved. -/
def Undisturbed (s : RefreshState store) (event : RefreshEvent) : Prop :=
  ∀ i call, event = .proceed i .revoke → s.calls[i]? = some call →
    ∀ (j : Nat) claims next, s.calls[j]? = some (.consumed claims next) → ¬ call.Targets claims.sub claims.family

theorem dead_of_false {p : String → String → Prop} (never : ∀ subject family, ¬ p subject family)
    (s : RefreshState store) : Dead p s := ⟨fun _ _ _ => never _ _, fun _ _ _ _ => never _ _⟩

theorem proceed_compromised {claims claims' : RefreshTokenClaims} {records records' : store.State} {next : RefreshStep}
    {drawn : Option String}
    (h : proceed store expiresInSeconds (.compromised claims) records next = some (.familyRevoked claims', records', drawn)) :
    next = .revoke := by
  cases next <;> cases h
  rfl

theorem proceed_revokingSubject {subject subject' : String} {records records' : store.State} {next : RefreshStep}
    {drawn : Option String} (h : proceed store expiresInSeconds (.revokingSubject subject) records next =
      some (.subjectRevoked subject', records', drawn)) : next = .revoke := by
  cases next <;> cases h
  rfl

/-- A revocation kills what it covers, and what is dead stays so. -/
theorem Final.step {owner : String → String} {s t : RefreshState store} {event : RefreshEvent} (final : Final s)
    (valid : Valid owner s) (undisturbed : Undisturbed s event) (h : step store expiresInSeconds s event = some t) :
    Final t := by
  intro j other there
  rcases step_cases h with ⟨call, started, rfl⟩ | ⟨i, next, call, call', records, drawn, rfl, here, taken, -, rfl⟩
  · rcases getElem?_start_some there with ⟨-, rfl⟩ | before
    · cases started <;> exact dead_of_false (fun _ _ => id) _
    · exact (final j other before).start started
  · rcases getElem?_set_some there with ⟨rfl, rfl⟩ | ⟨-, before⟩
    · have quiet (covers : ∀ claims next, other ≠ .prepared claims next ∧ other ≠ .consumed claims next ∧
          other ≠ .exchanged claims next) : Quiet store call other s.records records := by
        rcases proceed_cases taken with ⟨-, quiet⟩ | ⟨claims, next, _, -, is, -⟩ | ⟨claims, next, _, -, -, spends⟩ |
          ⟨claims, next, -, is, -⟩
        · exact quiet
        · exact absurd is (covers claims next).1
        · rcases spends.effect with ⟨is, -⟩ | ⟨is, -⟩
          · exact absurd is (covers claims next).2.2
          · exact absurd is (covers claims next).2.1
        · exact absurd is (covers claims next).2.2
      cases other with
      | familyRevoked claims =>
        obtain ⟨rfl, gone⟩ := (quiet (by simp)).familyRevoked claims rfl
        obtain rfl := proceed_compromised taken
        refine ⟨fun id record found same => ?_, fun k claims' next' waits => ?_⟩
        · rcases gone id record found with other | ⟨-, other⟩
          · exact other same
          · have owned := (valid.recorded id record ((quiet (by simp)).shrinks id record found)).2.2
            rw [owned, show record.family = claims.family from same, (valid.calls j _ here).owned claims (.inr rfl)] at other
            exact other rfl
        · rcases getElem?_set_some waits with ⟨-, ⟨⟩⟩ | ⟨-, waits⟩
          exact undisturbed j _ rfl here k claims' next' waits
      | reuseDetected claims =>
        obtain rfl := (quiet (by simp)).reuseDetected claims rfl
        exact ((final j _ here).step valid h).1
      | subjectRevoked subject =>
        obtain ⟨rfl, gone⟩ := (quiet (by simp)).subjectRevoked subject rfl
        obtain rfl := proceed_revokingSubject taken
        refine ⟨gone, fun k claims' next' waits => ?_⟩
        rcases getElem?_set_some waits with ⟨-, ⟨⟩⟩ | ⟨-, waits⟩
        exact undisturbed j _ rfl here k claims' next' waits
      | revokedAll subject =>
        obtain rfl := (quiet (by simp)).revokedAll subject rfl
        exact ((final j _ here).step valid h).1
      | verified | prepared | consumed | exchanged | compromised | revoking | revoked | revokingSubject | failed =>
        exact dead_of_false (fun _ _ => id) _
    · exact ((final j other before).step valid h).1

/-! ## Every interleaving -/

/-- Where the calls start from: records that the service has issued, one subject to a family. -/
structure Initial (owner : String → String) (s : RefreshState store) : Prop where
  calls : s.calls = []
  recorded : ∀ id record, store.find s.records id = some record →
    record.id = id ∧ id ∈ s.drawn ∧ record.subject = owner record.family

theorem Initial.valid {owner : String → String} {s : RefreshState store} (initial : Initial owner s) : Valid owner s where
  recorded := initial.recorded
  calls i call here := by
    rw [initial.calls] at here
    cases here
  apart i j a b _ here := by
    rw [initial.calls] at here
    cases here

theorem Initial.final {owner : String → String} {s : RefreshState store} (initial : Initial owner s) : Final s := by
  intro i call here
  rw [initial.calls] at here
  cases here

def NoneConsumed (s : RefreshState store) : Prop := ∀ (i : Nat) claims next, s.calls[i]? ≠ some (.consumed claims next)

/-- A store that rotates leaves no token consumed without its successor. -/
theorem NoneConsumed.step {s t : RefreshState store} {event : RefreshEvent} (rotates : store.rotate.isSome = true)
    (clear : NoneConsumed s) (h : step store expiresInSeconds s event = some t) : NoneConsumed t := by
  intro j claims next there
  rcases step_cases h with ⟨call, started, rfl⟩ | ⟨i, _, call, call', records, drawn, -, here, taken, -, rfl⟩
  · rcases getElem?_start_some there with ⟨-, rfl⟩ | before
    · cases started
    · exact clear j claims next before
  · rcases getElem?_set_some there with ⟨-, rfl⟩ | ⟨-, before⟩
    · rcases proceed_cases taken with ⟨-, quiet⟩ | ⟨_, _, _, -, is, -⟩ | ⟨_, _, _, -, -, spends⟩ | ⟨_, _, -, is, -⟩
      · exact absurd quiet.next nofun
      · cases is
      · rcases spends.effect with ⟨is, -⟩ | ⟨-, none, -⟩
        · cases is
        · rw [none] at rotates
          cases rotates
      · cases is
    · exact clear j claims next before

theorem run_final {owner : String → String} {s t : RefreshState store} {events : List RefreshEvent}
    (initial : Initial owner s) (taken : run (step store expiresInSeconds) s events = some t)
    (h : store.rotate.isSome = true ∨ Throughout (step store expiresInSeconds) Undisturbed s events) : Final t := by
  rcases h with rotates | undisturbed
  · have kept := keeps (I := fun s => Valid owner s ∧ Final s ∧ NoneConsumed s)
      (fun s event t inv taken => ⟨step_valid inv.1 taken, inv.2.1.step inv.1
        (fun _ _ _ _ j claims next here => absurd here (inv.2.2 j claims next)) taken, inv.2.2.step rotates taken⟩)
      ⟨initial.valid, initial.final, fun i claims next here => by rw [initial.calls] at here; cases here⟩ taken
    exact kept.2.1
  · exact (keeps_throughout (I := fun s => Valid owner s ∧ Final s)
      (fun s event t calm inv taken => ⟨step_valid inv.1 taken, inv.2.step inv.1 calm taken⟩)
      ⟨initial.valid, initial.final⟩ undisturbed taken).2

theorem run_dead {p : String → String → Prop} {owner : String → String} {s t : RefreshState store}
    {events : List RefreshEvent} (valid : Valid owner s) (dead : Dead p s)
    (taken : run (step store expiresInSeconds) s events = some t) (j : Nat) (claims : RefreshTokenClaims)
    (next : RefreshTokenRecord) (exchanged : t.calls[j]? = some (.exchanged claims next))
    (covered : p claims.sub claims.family) : s.calls[j]? = some (.exchanged claims next) := by
  induction events generalizing s with
  | nil =>
    cases taken
    exact exchanged
  | cons event rest ih =>
    obtain ⟨u, one, taken⟩ := run_cons taken
    obtain ⟨dead', before⟩ := dead.step valid one
    exact before j claims next (ih (step_valid valid one) dead' taken) covered

/-- A token is exchanged once. What a call has revoked is not exchanged any more,
with a store that rotates, and with one that consumes when no successor is still
to be saved at a revocation. -/
theorem refresh_tokens_single_use_final (store : RefreshTokenStore) (expiresInSeconds : Nat) (owner : String → String)
    (s : RefreshState store) (initial : Initial owner s) (events : List RefreshEvent) (t : RefreshState store)
    (taken : run (step store expiresInSeconds) s events = some t) :
    (∀ (i j : Nat) claims claims' next next', t.calls[i]? = some (.exchanged claims next) →
      t.calls[j]? = some (.exchanged claims' next') → claims.jti = claims'.jti → i = j) ∧
    (store.rotate.isSome = true ∨ Throughout (step store expiresInSeconds) Undisturbed s events →
      ∀ (i : Nat) call, t.calls[i]? = some call → ∀ later u, run (step store expiresInSeconds) t later = some u →
        ∀ (j : Nat) claims next, u.calls[j]? = some (.exchanged claims next) → call.Covers claims.sub claims.family →
          t.calls[j]? = some (.exchanged claims next)) := by
  have valid := keeps (I := fun s => Valid owner s) (fun _ _ _ => step_valid) initial.valid taken
  refine ⟨fun i j claims claims' next next' hi hj same => ?_, fun h i call here later u after j claims next => ?_⟩
  · by_contra other
    exact (valid.apart i j _ _ other hi hj).spent claims claims' rfl rfl same
  · exact run_dead valid (run_final initial taken h i call here) after j claims next

/-- A memory store without `rotate`. -/
def consumingStore : RefreshTokenStore :=
  MemoryRefreshTokenStore.store true (some MemoryRefreshTokenStore.consume) none (fun _ same => by cases same; rfl) nofun

def issued (store : RefreshTokenStore) (records : store.State) : RefreshState store :=
  ⟨store.save ⟨"t1", "ann", "f1", 1000000, false, 0⟩ records, [], ["t1"]⟩

theorem issued_initial (store : RefreshTokenStore) (records : store.State) (empty : ∀ id, store.find records id = none) :
    Initial (fun _ => "ann") (issued store records) where
  calls := rfl
  recorded id record found := by
    rw [issued, store.find_save, empty] at found
    split at found
    · next same =>
      cases found
      exact ⟨same.symm, same ▸ List.mem_cons_self, rfl⟩
    · cases found

/-- A rotation is between its consume and its save when all tokens of the subject are revoked. -/
def revokedBetween : List RefreshEvent :=
  [.rotateRefreshToken ⟨"t1", "ann", "f1"⟩, .proceed 0 (.create "t2" 0), .proceed 0 (.exchange 0), .revokeAllForSubject "ann",
    .proceed 1 .revoke, .proceed 1 .settle]

/-- The token that the rotation saves is exchanged. -/
def exchangedAfter : List RefreshEvent :=
  [.proceed 0 .save, .rotateRefreshToken ⟨"t2", "ann", "f1"⟩, .proceed 2 (.create "t3" 0), .proceed 2 (.exchange 0),
    .proceed 2 .save]

/-- With a store that consumes, a revocation is not final in every interleaving. -/
theorem revokeAllForSubject_not_final : ¬ ∀ (store : RefreshTokenStore) (expiresInSeconds : Nat) (owner : String → String)
    (s : RefreshState store), Initial owner s → ∀ events t, run (step store expiresInSeconds) s events = some t →
    ∀ (i : Nat) subject, t.calls[i]? = some (.revokedAll subject) →
    ∀ later u, run (step store expiresInSeconds) t later = some u →
    ∀ (k : Nat) claims next, k < t.calls.length → u.calls[k]? = some (.exchanged claims next) → next.subject = subject →
    ∀ (j : Nat) claims' next', u.calls[j]? = some (.exchanged claims' next') → claims'.jti = next.id →
      t.calls[j]? = some (.exchanged claims' next') := by
  intro final
  let s := issued consumingStore MemoryRefreshTokenStore.empty
  let claims : RefreshTokenClaims := ⟨"t1", "ann", "f1"⟩
  let next : RefreshTokenRecord := ⟨"t2", "ann", "f1", 60000, false, 0⟩
  let next' : RefreshTokenRecord := ⟨"t3", "ann", "f1", 60000, false, 0⟩
  have calls : (run (step consumingStore 60) s revokedBetween).map (·.calls) =
      some [.consumed claims next, .revokedAll "ann"] := by decide +kernel
  have calls' : ((run (step consumingStore 60) s revokedBetween).bind fun t =>
      run (step consumingStore 60) t exchangedAfter).map (·.calls) =
        some [.exchanged claims next, .revokedAll "ann", .exchanged ⟨"t2", "ann", "f1"⟩ next'] := by decide +kernel
  obtain ⟨t, taken, callsT⟩ := Option.map_eq_some_iff.mp calls
  rw [taken, Option.bind_some] at calls'
  obtain ⟨u, taken', callsU⟩ := Option.map_eq_some_iff.mp calls'
  have before := final consumingStore 60 (fun _ => "ann") s (issued_initial _ _ fun _ => rfl) revokedBetween t taken 1 "ann"
    (by rw [callsT]; rfl) exchangedAfter u taken' 0 claims next (by rw [callsT]; decide) (by rw [callsU]; rfl) rfl 2
    ⟨"t2", "ann", "f1"⟩ next' (by rw [callsU]; rfl) rfl
  rw [callsT] at before
  cases before

/-- A token is presented again after its exchange. -/
def presentedTwice : List RefreshEvent :=
  [.rotateRefreshToken ⟨"t1", "ann", "f1"⟩, .proceed 0 (.create "t2" 0), .proceed 0 (.exchange 0),
    .rotateRefreshToken ⟨"t1", "ann", "f1"⟩, .proceed 1 (.create "t3" 0), .proceed 1 (.exchange 0), .proceed 1 .revoke,
    .proceed 1 .settle]

theorem refresh_tokens_single_use_final_memory :
    ∃ t, run (step memoryRefreshTokenStore 60) (issued memoryRefreshTokenStore MemoryRefreshTokenStore.empty)
        presentedTwice = some t ∧
      t.calls[1]? = some (.reuseDetected ⟨"t1", "ann", "f1"⟩) ∧
      ∀ later u, run (step memoryRefreshTokenStore 60) t later = some u →
        ∀ (j : Nat) claims next, u.calls[j]? = some (.exchanged claims next) → claims.family = "f1" →
          t.calls[j]? = some (.exchanged claims next) := by
  have calls : (run (step memoryRefreshTokenStore 60) (issued memoryRefreshTokenStore MemoryRefreshTokenStore.empty)
      presentedTwice).map (·.calls) = some [.exchanged ⟨"t1", "ann", "f1"⟩ ⟨"t2", "ann", "f1", 60000, false, 0⟩,
        .reuseDetected ⟨"t1", "ann", "f1"⟩] := by decide +kernel
  obtain ⟨t, taken, callsT⟩ := Option.map_eq_some_iff.mp calls
  have detected : t.calls[1]? = some (.reuseDetected ⟨"t1", "ann", "f1"⟩) := by rw [callsT]; rfl
  have initial := issued_initial memoryRefreshTokenStore MemoryRefreshTokenStore.empty fun _ => rfl
  exact ⟨t, taken, detected, (refresh_tokens_single_use_final memoryRefreshTokenStore 60 (fun _ => "ann") _ initial
    presentedTwice t taken).2 (.inl rfl) 1 _ detected⟩

end Fluo.Jwt
