import Fluo.Lib.OrderedMap
import Fluo.Lib.Run

/-!
# Refresh tokens

`RefreshTokenService` with rotation enabled, over a store whose operations each
take effect at once. Calls interleave at every promise that they wait for.
-/

namespace Fluo.Jwt

structure RefreshTokenRecord where
  id : String
  subject : String
  family : String
  expiresAt : Int
  used : Bool
  createdAt : Int
  deriving DecidableEq, Repr

structure RefreshTokenConsumeInput where
  tokenId : String
  subject : String
  family : String
  now : Int
  deriving DecidableEq, Repr

structure RefreshTokenRotateInput extends RefreshTokenConsumeInput where
  replacement : RefreshTokenRecord
  deriving DecidableEq, Repr

inductive RefreshTokenConsumeResult
  | consumed
  | alreadyUsed
  | expired
  | notFound
  | mismatch
  | invalid
  deriving DecidableEq, Repr

/-- The record is the one that the input describes. -/
def RefreshTokenConsumeInput.Describes (input : RefreshTokenConsumeInput) (record : RefreshTokenRecord) : Prop :=
  record.subject = input.subject ∧ record.family = input.family

/-- A durable store, with what each operation does to the records that it finds. -/
structure RefreshTokenStore where
  State : Type
  find : State → String → Option RefreshTokenRecord
  save : RefreshTokenRecord → State → State
  revoke : String → State → State
  revokeBySubject : String → State → State
  revokeByFamily : Option (String → State → State)
  consume : Option (RefreshTokenConsumeInput → State → RefreshTokenConsumeResult × State)
  rotate : Option (RefreshTokenRotateInput → State → RefreshTokenConsumeResult × State)
  find_save : ∀ record state id, find (save record state) id = if id = record.id then some record else find state id
  find_revoke : ∀ tokenId state id, find (revoke tokenId state) id = if id = tokenId then none else find state id
  find_revokeBySubject : ∀ subject state id,
    find (revokeBySubject subject state) id = (find state id).filter (·.subject ≠ subject)
  find_revokeByFamily : ∀ revokeByFamily', revokeByFamily = some revokeByFamily' → ∀ family state id,
    find (revokeByFamily' family state) id = (find state id).filter (·.family ≠ family)
  consume_consumed : ∀ consume', consume = some consume' → ∀ input state state',
    consume' input state = (.consumed, state') →
      ∃ record, find state input.tokenId = some record ∧ record.used = false ∧ input.Describes record ∧
        ∀ id, find state' id = if id = input.tokenId then some { record with used := true } else find state id
  consume_refused : ∀ consume', consume = some consume' → ∀ input state result state',
    consume' input state = (result, state') → result ≠ .consumed →
      (∀ id, find state' id = find state id) ∧
        (result = .alreadyUsed → ∃ record, find state input.tokenId = some record ∧ input.Describes record)
  rotate_consumed : ∀ rotate', rotate = some rotate' → ∀ input state state',
    rotate' input state = (.consumed, state') →
      ∃ record, find state input.tokenId = some record ∧ record.used = false ∧ input.Describes record ∧
        ∀ id, find state' id = if id = input.replacement.id then some input.replacement
          else if id = input.tokenId then some { record with used := true } else find state id
  rotate_refused : ∀ rotate', rotate = some rotate' → ∀ input state result state',
    rotate' input state = (result, state') → result ≠ .consumed →
      (∀ id, find state' id = find state id) ∧
        (result = .alreadyUsed → ∃ record, find state input.tokenId = some record ∧ input.Describes record)

/-! ## The memory store -/

namespace MemoryRefreshTokenStore

structure Records where
  entries : OrderedMap String RefreshTokenRecord
  keyed : ∀ id record, entries.get id = some record → record.id = id

def empty : Records := ⟨OrderedMap.empty, nofun⟩

def save (record : RefreshTokenRecord) (records : Records) : Records where
  entries := records.entries.set record.id record
  keyed := by
    intro id record' found
    rw [OrderedMap.get_set] at found
    split at found
    · next same =>
      cases found
      exact same.symm
    · exact records.keyed id record' found

def revoke (tokenId : String) (records : Records) : Records where
  entries := records.entries.erase tokenId
  keyed := by
    intro id record found
    rw [OrderedMap.get_erase] at found
    split at found
    · cases found
    · exact records.keyed id record found

/-- Deletes the records of a subject or of a family. -/
def revokeWhere (p : RefreshTokenRecord → Bool) (records : Records) : Records where
  entries := records.entries.filter fun _ record => !p record
  keyed := fun id record found => records.keyed id record (OrderedMap.get_filter_some.mp found).1

/-- Why a record cannot be consumed, if it cannot. -/
def refusal (input : RefreshTokenConsumeInput) (current : RefreshTokenRecord) : Option RefreshTokenConsumeResult :=
  if current.subject ≠ input.subject ∨ current.family ≠ input.family then some .mismatch
  else if current.expiresAt ≤ input.now then some .expired
  else if current.used then some .alreadyUsed
  else none

def consume (input : RefreshTokenConsumeInput) (records : Records) : RefreshTokenConsumeResult × Records :=
  match records.entries.get input.tokenId with
  | none => (.notFound, records)
  | some current =>
    match refusal input current with
    | some result => (result, records)
    | none => (.consumed, save { current with used := true } records)

def rotate (input : RefreshTokenRotateInput) (records : Records) : RefreshTokenConsumeResult × Records :=
  match consume input.toRefreshTokenConsumeInput records with
  | (.consumed, records) => (.consumed, save input.replacement records)
  | refused => refused

theorem get_revokeWhere (p : RefreshTokenRecord → Bool) (records : Records) (id : String) :
    (revokeWhere p records).entries.get id = (records.entries.get id).filter (!p ·) := by
  apply Option.ext
  intro record
  rw [revokeWhere, OrderedMap.get_filter_some, Option.filter_eq_some_iff]

theorem refusal_none {input : RefreshTokenConsumeInput} {current : RefreshTokenRecord}
    (h : refusal input current = none) : current.used = false ∧ input.Describes current := by
  unfold refusal at h
  split_ifs at h with mismatch expired used
  rw [not_or, not_not, not_not] at mismatch
  exact ⟨Bool.eq_false_iff.mpr used, mismatch⟩

theorem refusal_alreadyUsed {input : RefreshTokenConsumeInput} {current : RefreshTokenRecord}
    (h : refusal input current = some .alreadyUsed) : input.Describes current := by
  unfold refusal at h
  split_ifs at h with mismatch expired used
  · cases h
  · cases h
  · rw [not_or, not_not, not_not] at mismatch
    exact mismatch

theorem refusal_ne_consumed (input : RefreshTokenConsumeInput) (current : RefreshTokenRecord) :
    refusal input current ≠ some .consumed := by
  unfold refusal
  split_ifs <;> nofun

theorem consume_consumed {input : RefreshTokenConsumeInput} {records records' : Records}
    (h : consume input records = (.consumed, records')) :
    ∃ record, records.entries.get input.tokenId = some record ∧ record.used = false ∧ input.Describes record ∧
      ∀ id, records'.entries.get id =
        if id = input.tokenId then some { record with used := true } else records.entries.get id := by
  unfold consume at h
  split at h
  · cases h
  · next current found =>
    split at h
    · next result refused =>
      cases h
      exact absurd refused (refusal_ne_consumed input current)
    · next accepted =>
      cases h
      obtain ⟨unused, describes⟩ := refusal_none accepted
      refine ⟨current, found, unused, describes, fun id => ?_⟩
      rw [save, OrderedMap.get_set]
      simp only [records.keyed _ _ found]

theorem consume_refused {input : RefreshTokenConsumeInput} {records records' : Records}
    {result : RefreshTokenConsumeResult} (h : consume input records = (result, records')) (refused : result ≠ .consumed) :
    records' = records ∧ (result = .alreadyUsed →
      ∃ record, records.entries.get input.tokenId = some record ∧ input.Describes record) := by
  unfold consume at h
  split at h
  · cases h
    exact ⟨rfl, nofun⟩
  · next current found =>
    split at h
    · next reason =>
      cases h
      exact ⟨rfl, fun used => ⟨current, found, refusal_alreadyUsed (used ▸ reason)⟩⟩
    · cases h
      exact absurd rfl refused

def store (revokeByFamily : Bool)
    (consume' : Option (RefreshTokenConsumeInput → Records → RefreshTokenConsumeResult × Records))
    (rotate' : Option (RefreshTokenRotateInput → Records → RefreshTokenConsumeResult × Records))
    (consumes : ∀ op, consume' = some op → op = consume) (rotates : ∀ op, rotate' = some op → op = rotate) :
    RefreshTokenStore where
  State := Records
  find := fun records id => records.entries.get id
  save := save
  revoke := revoke
  revokeBySubject := fun subject => revokeWhere (·.subject = subject)
  revokeByFamily := if revokeByFamily then some fun family => revokeWhere (·.family = family) else none
  consume := consume'
  rotate := rotate'
  find_save := fun record records id => by rw [save, OrderedMap.get_set]
  find_revoke := fun tokenId records id => by rw [revoke, OrderedMap.get_erase]
  find_revokeBySubject := fun subject records id => by
    rw [get_revokeWhere]
    simp
  find_revokeByFamily := fun op capable family records id => by
    rw [Option.ite_none_right_eq_some] at capable
    cases capable.2
    rw [get_revokeWhere]
    simp
  consume_consumed := fun op capable input records records' taken => by
    rw [consumes op capable] at taken
    exact consume_consumed taken
  consume_refused := fun op capable input records result records' taken refused => by
    rw [consumes op capable] at taken
    obtain ⟨rfl, used⟩ := consume_refused taken refused
    exact ⟨fun _ => rfl, used⟩
  rotate_consumed := fun op capable input records records' taken => by
    rw [rotates op capable] at taken
    unfold rotate at taken
    split at taken
    · next between consumed =>
      cases taken
      obtain ⟨record, found, unused, describes, after⟩ := consume_consumed consumed
      refine ⟨record, found, unused, describes, fun id => ?_⟩
      rw [save, OrderedMap.get_set, after]
    · next refused => exact absurd taken (refused records')
  rotate_refused := fun op capable input records result records' taken refused => by
    rw [rotates op capable] at taken
    unfold rotate at taken
    split at taken
    · cases taken
      exact absurd rfl refused
    · obtain ⟨rfl, used⟩ := consume_refused taken refused
      exact ⟨fun _ => rfl, used⟩

end MemoryRefreshTokenStore

def memoryRefreshTokenStore : RefreshTokenStore :=
  MemoryRefreshTokenStore.store true none (some MemoryRefreshTokenStore.rotate) nofun fun _ same => by cases same; rfl

/-! ## The service -/

structure RefreshTokenClaims where
  jti : String
  sub : String
  family : String
  deriving DecidableEq, Repr

inductive JwtError
  | invalidToken (message : String)
  | expiredToken (message : String)
  | configuration (message : String)
  /-- An operation of the store or the signer failed. -/
  | external
  deriving DecidableEq, Repr

/-- Where a call is. A call that waits has its effect on the store before it or behind it. -/
inductive RefreshCall
  /-- `rotateRefreshToken` has verified the token. -/
  | verified (claims : RefreshTokenClaims)
  /-- The next token and the access token are signed. -/
  | prepared (claims : RefreshTokenClaims) (next : RefreshTokenRecord)
  /-- The token is consumed, the next one is not saved. -/
  | consumed (claims : RefreshTokenClaims) (next : RefreshTokenRecord)
  | exchanged (claims : RefreshTokenClaims) (next : RefreshTokenRecord)
  | compromised (claims : RefreshTokenClaims)
  | familyRevoked (claims : RefreshTokenClaims)
  | reuseDetected (claims : RefreshTokenClaims)
  /-- `revokeRefreshToken` or `revokePresentedRefreshToken`. -/
  | revoking (tokenId : String)
  | revoked (tokenId : String)
  /-- `revokeAllForSubject` -/
  | revokingSubject (subject : String)
  | subjectRevoked (subject : String)
  | revokedAll (subject : String)
  | failed (error : JwtError)
  deriving DecidableEq, Repr

structure RefreshState (store : RefreshTokenStore) where
  records : store.State
  calls : List RefreshCall
  /-- The ids that were drawn, `randomUUID` draws each once. -/
  drawn : List String

inductive RefreshStep
  | create (tokenId : String) (now : Int)
  /-- `store.rotate` or `store.consume` -/
  | exchange (now : Int)
  | save
  /-- The records of a family, of a subject or of a token are deleted. -/
  | revoke
  | settle
  /-- What the call waits for fails without an effect. -/
  | fail
  deriving DecidableEq, Repr

inductive RefreshEvent
  | rotateRefreshToken (claims : RefreshTokenClaims)
  | revokeRefreshToken (tokenId : String)
  | revokePresentedRefreshToken (claims : RefreshTokenClaims)
  | revokeAllForSubject (subject : String)
  | proceed (call : Nat) (step : RefreshStep)
  deriving DecidableEq, Repr

def createRefreshTokenWithFamily (expiresInSeconds : Nat) (now : Int) (tokenId subject family : String) :
    RefreshTokenRecord where
  id := tokenId
  subject
  family
  expiresAt := (now / 1000 + expiresInSeconds) * 1000
  used := false
  createdAt := now / 1000 * 1000

def noAtomicStore : JwtError :=
  .configuration "Refresh token rotation requires an atomic store.rotate() or store.consume() implementation."

/-- The call after a result that is not `consumed`. -/
def refuse (claims : RefreshTokenClaims) : RefreshTokenConsumeResult → RefreshCall
  | .alreadyUsed => .compromised claims
  | .expired => .failed (.expiredToken "Refresh token has expired.")
  | .notFound | .invalid => .failed (.invalidToken "Refresh token record was not found.")
  | .mismatch | .consumed => .failed (.invalidToken "Refresh token record does not match token claims.")

section

variable (store : RefreshTokenStore) (expiresInSeconds : Nat)

def revokeCompromisedFamily (claims : RefreshTokenClaims) (records : store.State) : store.State :=
  match store.revokeByFamily with
  | some revokeByFamily => revokeByFamily claims.family records
  | none => store.revokeBySubject claims.sub records

def exchange (claims : RefreshTokenClaims) (next : RefreshTokenRecord) (now : Int) (records : store.State) :
    RefreshCall × store.State :=
  let input : RefreshTokenConsumeInput := ⟨claims.jti, claims.sub, claims.family, now⟩
  match store.rotate, store.consume with
  | some rotate, _ =>
    match rotate ⟨input, next⟩ records with
    | (.consumed, records) => (.exchanged claims next, records)
    | (result, records) => (refuse claims result, records)
  | none, some consume =>
    match consume input records with
    | (.consumed, records) => (.consumed claims next, records)
    | (result, records) => (refuse claims result, records)
  | none, none => (.failed noAtomicStore, records)

/-- A call's next step: the call after it, the records, and the id that it draws. -/
def proceed (call : RefreshCall) (records : store.State) : RefreshStep → Option (RefreshCall × store.State × Option String)
  | .create tokenId now =>
    match call with
    | .verified claims =>
      if store.rotate.isNone ∧ store.consume.isNone then some (.failed noAtomicStore, records, none)
      else
        let next := createRefreshTokenWithFamily expiresInSeconds now tokenId claims.sub claims.family
        some (.prepared claims next, records, some tokenId)
    | _ => none
  | .exchange now =>
    match call with
    | .prepared claims next =>
      let (call, records) := exchange store claims next now records
      some (call, records, none)
    | _ => none
  | .save =>
    match call with
    | .consumed claims next => some (.exchanged claims next, store.save next records, none)
    | _ => none
  | .revoke =>
    match call with
    | .compromised claims => some (.familyRevoked claims, revokeCompromisedFamily store claims records, none)
    | .revoking tokenId => some (.revoked tokenId, store.revoke tokenId records, none)
    | .revokingSubject subject => some (.subjectRevoked subject, store.revokeBySubject subject records, none)
    | _ => none
  | .settle =>
    match call with
    | .familyRevoked claims => some (.reuseDetected claims, records, none)
    | .subjectRevoked subject => some (.revokedAll subject, records, none)
    | _ => none
  | .fail =>
    match call with
    | .verified _ | .prepared _ _ | .consumed _ _ | .compromised _ | .revoking _ | .revokingSubject _ =>
      some (.failed .external, records, none)
    | _ => none

def start (s : RefreshState store) (call : RefreshCall) : RefreshState store := { s with calls := s.calls ++ [call] }

/-- The event is not enabled when the call is not there yet or an id is drawn again. -/
def step (s : RefreshState store) : RefreshEvent → Option (RefreshState store)
  | .rotateRefreshToken claims => some (start store s (.verified claims))
  | .revokeRefreshToken tokenId => some (start store s (.revoking tokenId))
  | .revokePresentedRefreshToken claims => some (start store s (.revoking claims.jti))
  | .revokeAllForSubject subject => some (start store s (.revokingSubject subject))
  | .proceed i next =>
    match s.calls[i]? with
    | none => none
    | some call =>
      match proceed store expiresInSeconds call s.records next with
      | none => none
      | some (call, records, none) => some { s with records, calls := s.calls.set i call }
      | some (call, records, some tokenId) =>
        if tokenId ∈ s.drawn then none
        else some { records, calls := s.calls.set i call, drawn := tokenId :: s.drawn }

end

end Fluo.Jwt
