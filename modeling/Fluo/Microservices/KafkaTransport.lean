import Fluo.Lib.Run
import Fluo.Microservices.BrokerRequests

/-!
# The Kafka transport

`listen`, `send` and `close` over a broker whose calls end in any order. A step is
what runs between two calls of the broker that the transport awaits; what waits
for `listenPromise` goes on in the order in which it began to wait.
-/

namespace Fluo.Microservices.KafkaTransport

open Fluo.Microservices.BrokerRequests

variable {V : Type}

/-- The body of `listenPromise`: it awaits `topic`. -/
inductive Listen where
  | subscribing (subscribed : List String) (topic : String) (rest : List String)
  | unsubscribing (topic : String) (rest : List String) (error : String)

/-- The body of `closePromise`. -/
inductive Close where
  | listening
  | unsubscribing (topic : String) (rest : List String) (closeError : Option String)

structure Transport (V : Type) where
  closing : Bool
  listening : Bool
  listenPromise : Option Listen
  closePromise : Option Close
  requests : List (Request V)
  /-- The consumers that the broker runs for this transport. -/
  live : List String
  /-- How the last `close` ended, until the transport subscribes again. -/
  closed : Option (Except String Unit)

namespace Transport

def initial : Transport V := ⟨false, false, none, none, [], [], none⟩

/-- What `close` does at its end. -/
def finishClose (s : Transport V) (closeError : Option String) : Transport V :=
  { s with
    listening := false
    closePromise := none
    requests := s.requests.map (·.rejectPending .kafka)
    closed := some (match closeError with | some error => .error error | none => .ok ()) }

def unsubscribe (s : Transport V) (closeError : Option String) : List String → Transport V
  | [] => s.finishClose closeError
  | topic :: rest => { s with closePromise := some (.unsubscribing topic rest closeError) }

/-- The topics from which `close` unsubscribes. -/
def closeTopics (topics : Topics) (s : Transport V) : List String := if s.listening then topics.all else []

/-- `listenPromise` settles; `close` goes on if it waits for it. -/
def settleListen (topics : Topics) (s : Transport V) (result : Except String Unit) : Transport V :=
  match result with
  | .ok () =>
    let s := { s with listening := true, listenPromise := none }
    match s.closePromise with
    | some .listening => s.unsubscribe none (s.closeTopics topics)
    | _ => s
  | .error error =>
    let s := { s with listenPromise := none }
    match s.closePromise with
    | some .listening => { s with closePromise := none, closed := some (.error error) }
    | _ => s

def subscribe (topics : Topics) (s : Transport V) (subscribed : List String) : List String → Transport V
  | [] => s.settleListen topics (.ok ())
  | topic :: rest => { s with listenPromise := some (.subscribing subscribed topic rest) }

def rollback (topics : Topics) (s : Transport V) (error : String) : List String → Transport V
  | [] => s.settleListen topics (.error error)
  | topic :: rest => { s with listenPromise := some (.unsubscribing topic rest error) }

def listen (topics : Topics) (s : Transport V) : Transport V :=
  if s.closing && s.closePromise.isSome then s
  else
    let s := { s with closing := false }
    if s.listening || s.listenPromise.isSome then s
    else { s with closed := none }.subscribe topics [] topics.all

def close (topics : Topics) (s : Transport V) : Transport V :=
  if s.closePromise.isSome then s
  else
    let s := { s with closing := true }
    if s.listenPromise.isSome then { s with closePromise := some .listening }
    else s.unsubscribe none (s.closeTopics topics)

def send (s : Transport V) (pattern : String) (signal : Option Bool) : Transport V :=
  let r : Request V :=
    if s.closing then
      .refused pattern signal "KafkaMicroserviceTransport is closing. Wait for close() to complete before send()."
    else if !s.listening then
      .refused pattern signal "KafkaMicroserviceTransport is not listening. Call listen() before send()."
    else Request.start .kafka ⟨pattern, signal, .waiting, false, false, false, none⟩
  { s with requests := s.requests ++ [r] }

def unsubscribed (s : Transport V) (topic : String) : Transport V := { s with live := s.live.filter (· ≠ topic) }

end Transport

inductive Event (V : Type) where
  | listen
  /-- A call of `subscribe` ends, with an error or without. -/
  | subscribed (error : Option String)
  /-- A call of `unsubscribe` in the rollback of `listen` ends. -/
  | rolledBack (error : Option String)
  | close
  /-- A call of `unsubscribe` in `close` ends. -/
  | unsubscribed (error : Option String)
  | send (pattern : String) (signal : Option Bool)
  | request (index : Nat) (e : RequestEvent V)

def step (topics : Topics) (requestTimeoutMs : Nat) (s : Transport V) : Event V → Option (Transport V)
  | .listen => some (s.listen topics)
  | .subscribed error =>
    match s.listenPromise with
    | some (.subscribing subscribed topic rest) =>
      match error with
      | none => some ({ s with live := s.live ++ [topic] }.subscribe topics (subscribed ++ [topic]) rest)
      | some error => some (s.rollback topics error subscribed)
    | _ => none
  | .rolledBack error =>
    match s.listenPromise with
    | some (.unsubscribing topic rest listenError) =>
      some ((if error = none then s.unsubscribed topic else s).rollback topics listenError rest)
    | _ => none
  | .close => some (s.close topics)
  | .unsubscribed error =>
    match s.closePromise with
    | some (.unsubscribing topic rest closeError) =>
      match error with
      | none => some ((s.unsubscribed topic).unsubscribe closeError rest)
      | some error => some (s.unsubscribe (closeError.or (some error)) rest)
    | _ => none
  | .send pattern signal => some (s.send pattern signal)
  | .request index e =>
    (requestStep .kafka s.closing requestTimeoutMs s.requests index e).map fun requests =>
      { s with requests := requests }

/-! ## Requests -/

variable {topics : Topics} {requestTimeoutMs : Nat} {s t : Transport V}

/-- What every run keeps of the promises and the requests. -/
structure Inv (s : Transport V) : Prop where
  valid : ∀ r ∈ s.requests, r.Valid ∧ r.stage ≠ .waiting
  idle : s.listening = false → ∀ r ∈ s.requests, r.outcome.isSome = true
  quiet : s.listenPromise ≠ none → s.listening = false
  waits : s.closePromise = some .listening → s.listenPromise ≠ none
  closing : s.closePromise ≠ none → s.closing = true
  listening : ∀ topic rest error, s.closePromise = some (.unsubscribing topic rest error) → s.listening = true
  closed : s.closed ≠ none → s.listening = false ∧ s.listenPromise = none

theorem Inv.free (h : Inv s) (silent : s.listening = false) (topic : String) (rest : List String)
    (error : Option String) : s.closePromise ≠ some (.unsubscribing topic rest error) := by
  intro unsubscribing
  have listening := h.listening topic rest error unsubscribing
  simp [silent] at listening

theorem Inv.settled (h : Inv s) {topic : String} {rest : List String} {error : Option String}
    (unsubscribing : s.closePromise = some (.unsubscribing topic rest error)) : s.listenPromise = none := by
  by_contra held
  exact h.free (h.quiet held) topic rest error unsubscribing

namespace Transport

theorem initial_inv : Inv (initial : Transport V) := by
  constructor <;> simp [initial]

theorem finishClose_inv (h : Inv { s with closePromise := none }) (settled : s.listenPromise = none)
    (closeError : Option String) : Inv (s.finishClose closeError) where
  valid r mem := by
    obtain ⟨r₀, mem₀, rfl⟩ := List.mem_map.mp mem
    obtain ⟨valid, started⟩ := h.valid r₀ mem₀
    exact ⟨Request.rejectPending_valid valid,
      fun waiting => started ((Request.rejectPending_later .kafka r₀).stage waiting)⟩
  idle _ r mem := by
    obtain ⟨r₀, mem₀, rfl⟩ := List.mem_map.mp mem
    obtain ⟨valid, started⟩ := h.valid r₀ mem₀
    exact Request.rejectPending_settled valid started
  quiet := fun _ => rfl
  waits := nofun
  closing := fun held => absurd rfl held
  listening := nofun
  closed := fun _ => ⟨rfl, settled⟩

theorem unsubscribe_inv (h : Inv { s with closePromise := none }) (settled : s.listenPromise = none)
    (closing : s.closing = true) (closeError : Option String) {rest : List String}
    (listening : rest ≠ [] → s.listening = true) : Inv (s.unsubscribe closeError rest) := by
  cases rest with
  | nil => exact finishClose_inv h settled closeError
  | cons topic rest =>
    exact ⟨h.valid, h.idle, h.quiet, nofun, fun _ => closing, fun _ _ _ _ => listening (List.cons_ne_nil _ _), h.closed⟩

theorem closeTopics_listening (topics : Topics) (s : Transport V) (some : s.closeTopics topics ≠ []) :
    s.listening = true := by
  unfold closeTopics at some
  split at some
  next listening => exact listening
  next => exact absurd rfl some

theorem settleListen_inv (h : Inv s) (held : s.listenPromise ≠ none) (result : Except String Unit) :
    Inv (s.settleListen topics result) := by
  have silent := h.quiet held
  have unclosed : s.closed = none := by
    by_contra closed
    exact held (h.closed closed).2
  have settled := h.idle silent
  unfold settleListen
  cases result with
  | ok =>
    have listens : Inv { s with listening := true, listenPromise := none, closePromise := none } :=
      ⟨h.valid, nofun, fun held => absurd rfl held, nofun, fun held => absurd rfl held, nofun,
        fun closed => absurd unclosed closed⟩
    dsimp only
    split
    next waits =>
      exact unsubscribe_inv (s := { s with listening := true, listenPromise := none }) listens rfl
        (h.closing (by simp [waits])) none fun _ => rfl
    next other =>
      exact ⟨listens.valid, nofun, listens.quiet, fun waits => absurd waits other, h.closing, fun _ _ _ _ => rfl,
        listens.closed⟩
  | error error =>
    dsimp only
    split
    next =>
      exact ⟨h.valid, h.idle, fun held => absurd rfl held, nofun, fun held => absurd rfl held, nofun,
        fun _ => ⟨silent, rfl⟩⟩
    next other =>
      exact ⟨h.valid, h.idle, fun held => absurd rfl held, fun waits => absurd waits other, h.closing, h.listening,
        fun closed => absurd unclosed closed⟩

theorem subscribe_inv (h : Inv s) (silent : s.listening = false) (unclosed : s.closed = none) {subscribed rest : List String}
    (held : rest = [] → s.listenPromise ≠ none) : Inv (s.subscribe topics subscribed rest) := by
  cases rest with
  | nil => exact settleListen_inv h (held rfl) (.ok ())
  | cons topic rest =>
    exact ⟨h.valid, h.idle, fun _ => silent, nofun, h.closing, h.listening, fun closed => absurd unclosed closed⟩

theorem rollback_inv (h : Inv s) (silent : s.listening = false) (unclosed : s.closed = none)
    (held : s.listenPromise ≠ none) (error : String) {rest : List String} : Inv (s.rollback topics error rest) := by
  cases rest with
  | nil =>
    have settles : Inv (s.settleListen topics (.error error)) := settleListen_inv h held _
    exact settles
  | cons topic rest =>
    exact ⟨h.valid, h.idle, fun _ => silent, nofun, h.closing, h.listening, fun closed => absurd unclosed closed⟩

theorem listen_inv (h : Inv s) : Inv (s.listen topics) := by
  unfold listen
  dsimp only
  split
  · exact h
  next free =>
    have idle : s.closePromise = none := by
      by_contra held
      exact free (by simp [h.closing held, Option.isSome_iff_ne_none, held])
    split
    · exact ⟨h.valid, h.idle, h.quiet, h.waits, fun held => absurd idle held, h.listening, h.closed⟩
    next quiet =>
      simp only [Bool.or_eq_true, not_or, Bool.not_eq_true, Option.isSome_eq_false_iff, Option.isNone_iff_eq_none] at quiet
      exact subscribe_inv (s := { s with closing := false, closed := none })
        ⟨h.valid, h.idle, h.quiet, h.waits, fun held => absurd idle held, h.listening, fun closed => absurd rfl closed⟩
        quiet.1 rfl nofun

theorem close_inv (h : Inv s) : Inv (s.close topics) := by
  unfold close
  dsimp only
  split
  · exact h
  next free =>
    have idle : s.closePromise = none := by simpa using free
    split
    next held =>
      have listens : s.listenPromise ≠ none := Option.isSome_iff_ne_none.mp held
      exact ⟨h.valid, h.idle, h.quiet, fun _ => listens, fun _ => rfl, nofun, h.closed⟩
    next free =>
      have settled : s.listenPromise = none := by simpa using free
      exact unsubscribe_inv (s := { s with closing := true })
        ⟨h.valid, h.idle, h.quiet, nofun, fun held => absurd rfl held, nofun, h.closed⟩ settled rfl none
        (closeTopics_listening topics { s with closing := true })

theorem send_inv (h : Inv s) (pattern : String) (signal : Option Bool) : Inv (s.send pattern signal) := by
  have fresh : (⟨pattern, signal, .waiting, false, false, false, none⟩ : Request V).Valid := by
    constructor <;> simp
  refine ⟨fun r mem => ?_, fun silent r mem => ?_, h.quiet, h.waits, h.closing, h.listening, h.closed⟩ <;>
    rcases List.mem_append.mp mem with mem | mem
  · exact h.valid r mem
  · rw [List.mem_singleton.mp mem]
    split
    · exact ⟨Request.refused_valid _ _ _, nofun⟩
    · split
      · exact ⟨Request.refused_valid _ _ _, nofun⟩
      · exact ⟨Request.start_valid fresh rfl, Request.start_started _ _⟩
  · exact h.idle silent r mem
  · rw [List.mem_singleton.mp mem]
    split
    · rfl
    · rw [if_pos (by simpa [send] using silent)]
      rfl

end Transport

theorem step_inv {e : Event V} (h : Inv s) (stays : step topics requestTimeoutMs s e = some t) : Inv t := by
  cases e with
  | listen => cases stays; exact Transport.listen_inv h
  | subscribed error =>
    simp only [step] at stays
    split at stays
    next subscribed topic rest subscribing =>
      have held : s.listenPromise ≠ none := by simp [subscribing]
      have silent := h.quiet held
      have unclosed : s.closed = none := by
        by_contra closed
        exact held (h.closed closed).2
      cases error with
      | none =>
        cases stays
        exact Transport.subscribe_inv (s := { s with live := s.live ++ [topic] })
          ⟨h.valid, h.idle, h.quiet, h.waits, h.closing, h.listening, h.closed⟩ silent unclosed fun _ => held
      | some error =>
        cases stays
        exact Transport.rollback_inv h silent unclosed held error
    next => cases stays
  | rolledBack error =>
    simp only [step] at stays
    split at stays
    next topic rest listenError unsubscribing =>
      have held : s.listenPromise ≠ none := by simp [unsubscribing]
      have silent := h.quiet held
      have unclosed : s.closed = none := by
        by_contra closed
        exact held (h.closed closed).2
      cases stays
      split
      · exact Transport.rollback_inv (s := s.unsubscribed topic)
          ⟨h.valid, h.idle, h.quiet, h.waits, h.closing, h.listening, h.closed⟩ silent unclosed held listenError
      · exact Transport.rollback_inv h silent unclosed held listenError
    next => cases stays
  | close => cases stays; exact Transport.close_inv h
  | unsubscribed error =>
    simp only [step] at stays
    split at stays
    next topic rest closeError unsubscribing =>
      have listening := h.listening topic rest closeError unsubscribing
      have settled := h.settled unsubscribing
      have closing := h.closing (by simp [unsubscribing])
      have free : Inv { s with closePromise := none } :=
        ⟨h.valid, h.idle, h.quiet, nofun, fun held => absurd rfl held, nofun, h.closed⟩
      cases error with
      | none =>
        cases stays
        exact Transport.unsubscribe_inv (s := s.unsubscribed topic)
          ⟨free.valid, free.idle, free.quiet, free.waits, free.closing, free.listening, free.closed⟩ settled closing
          closeError fun _ => listening
      | some error =>
        cases stays
        exact Transport.unsubscribe_inv free settled closing _ fun _ => listening
    next => cases stays
  | send pattern signal => cases stays; exact Transport.send_inv h pattern signal
  | request index e =>
    obtain ⟨requests, moved, rfl⟩ := Option.map_eq_some_iff.mp stays
    refine ⟨requestStep_all (fun r r' h moves => ?_) moved h.valid, fun silent => ?_, h.quiet, h.waits, h.closing,
      h.listening, h.closed⟩
    · exact ⟨Request.step_valid h.1 moves, fun waiting => h.2 ((Request.step_later moves).stage waiting)⟩
    · refine requestStep_all (fun r r' settled moves => ?_) moved (h.idle silent)
      rw [(Request.step_later moves).outcome settled]
      exact settled

theorem unsubscribe_requests (s : Transport V) (closeError : Option String) (rest : List String) :
    (s.unsubscribe closeError rest).requests = s.requests ∨
      (s.unsubscribe closeError rest).requests = s.requests.map (·.rejectPending .kafka) := by
  cases rest with
  | nil => exact .inr rfl
  | cons topic rest => exact .inl rfl

theorem settleListen_requests (topics : Topics) (s : Transport V) (result : Except String Unit) :
    (s.settleListen topics result).requests = s.requests ∨
      (s.settleListen topics result).requests = s.requests.map (·.rejectPending .kafka) := by
  unfold Transport.settleListen
  cases result with
  | ok =>
    dsimp only
    split
    · exact unsubscribe_requests { s with listening := true, listenPromise := none } none _
    · exact .inl rfl
  | error error =>
    dsimp only
    split <;> exact .inl rfl

theorem step_continues {e : Event V} (stays : step topics requestTimeoutMs s e = some t) :
    Continues s.requests t.requests := by
  have same : ∀ {t : Transport V}, t.requests = s.requests ∨ t.requests = s.requests.map (·.rejectPending .kafka) →
      Continues s.requests t.requests := by
    rintro t (same | rejected)
    · exact same ▸ .refl _
    · exact rejected ▸ continues_map (Request.rejectPending_later .kafka) _
  cases e with
  | listen =>
    cases stays
    unfold Transport.listen
    dsimp only
    split
    · exact .refl _
    · split
      · exact .refl _
      · exact .refl _
  | subscribed error =>
    simp only [step] at stays
    split at stays
    next subscribed topic rest _ =>
      cases error with
      | none =>
        cases stays
        cases rest with
        | nil => exact same (settleListen_requests topics { s with live := s.live ++ [topic] } (.ok ()))
        | cons => exact .refl _
      | some error =>
        cases stays
        cases subscribed with
        | nil => exact same (settleListen_requests topics s (.error error))
        | cons => exact .refl _
    next => cases stays
  | rolledBack error =>
    simp only [step] at stays
    split at stays
    next topic rest listenError _ =>
      cases stays
      cases rest with
      | nil =>
        split
        · exact same (settleListen_requests topics (s.unsubscribed topic) (.error listenError))
        · exact same (settleListen_requests topics s (.error listenError))
      | cons => split <;> exact .refl _
    next => cases stays
  | close =>
    cases stays
    unfold Transport.close
    dsimp only
    split
    · exact .refl _
    · split
      · exact .refl _
      · exact same (unsubscribe_requests { s with closing := true } none _)
  | unsubscribed error =>
    simp only [step] at stays
    split at stays
    next topic rest closeError _ =>
      cases error with
      | none => cases stays; exact same (unsubscribe_requests (s.unsubscribed topic) closeError rest)
      | some error => cases stays; exact same (unsubscribe_requests s _ rest)
    next => cases stays
  | send pattern signal => cases stays; exact continues_append _ _
  | request index e =>
    obtain ⟨requests, moved, rfl⟩ := Option.map_eq_some_iff.mp stays
    exact requestStep_continues moved

/-! ## Consumers -/

/-- The topics whose consumers a rollback or a `close` that is under way has yet to
unsubscribe, or else the next `close` would. -/
def Transport.owned (topics : Topics) (s : Transport V) : List String :=
  match s.listenPromise with
  | some (.subscribing subscribed _ _) => subscribed
  | some (.unsubscribing topic rest _) => topic :: rest
  | none =>
    match s.closePromise with
    | some (.unsubscribing topic rest _) => topic :: rest
    | _ => s.closeTopics topics

/-- What a run keeps of the consumers while `unsubscribe` does not fail. -/
structure Held (topics : Topics) (s : Transport V) : Prop where
  single : s.live.Nodup
  owned : ∀ topic ∈ s.live, topic ∈ s.owned topics
  plan : ∀ subscribed topic rest, s.listenPromise = some (.subscribing subscribed topic rest) →
    subscribed ++ topic :: rest = topics.all

/-- A transport that neither listens nor is about to owns nothing. -/
theorem Inv.owned_silent (h : Inv s) (silent : s.listening = false) (settled : s.listenPromise = none) :
    s.owned topics = [] := by
  unfold Transport.owned Transport.closeTopics
  rw [settled]
  dsimp only
  split
  next topic rest error unsubscribing => exact absurd unsubscribing (h.free silent topic rest error)
  next => rw [silent]; rfl

namespace Transport

theorem unsubscribe_held (settled : s.listenPromise = none) (single : s.live.Nodup) (closeError : Option String)
    {rest : List String} (owned : ∀ topic ∈ s.live, topic ∈ rest) : Held topics (s.unsubscribe closeError rest) := by
  cases rest with
  | nil =>
    exact ⟨single, fun topic mem => absurd (owned topic mem) List.not_mem_nil, fun _ _ _ subscribing => by
      simp [unsubscribe, finishClose, settled] at subscribing⟩
  | cons topic rest =>
    refine ⟨single, ?_, fun _ _ _ subscribing => by simp [unsubscribe, settled] at subscribing⟩
    simpa [unsubscribe, Transport.owned, settled] using owned

theorem listened_held (single : s.live.Nodup) (owned : ∀ topic ∈ s.live, topic ∈ topics.all)
    (free : ∀ topic rest error, s.closePromise ≠ some (.unsubscribing topic rest error)) :
    Held topics (s.settleListen topics (.ok ())) := by
  unfold settleListen
  dsimp only
  split
  · exact unsubscribe_held (s := { s with listening := true, listenPromise := none }) rfl single none owned
  next other =>
    refine ⟨single, fun topic mem => ?_, nofun⟩
    unfold Transport.owned
    dsimp only
    split
    next topic rest error unsubscribing => exact absurd unsubscribing (free topic rest error)
    next => exact owned topic mem

theorem subscribe_held (single : s.live.Nodup) {subscribed rest : List String}
    (owned : ∀ topic ∈ s.live, topic ∈ subscribed) (plan : subscribed ++ rest = topics.all)
    (free : ∀ topic rest error, s.closePromise ≠ some (.unsubscribing topic rest error)) :
    Held topics (s.subscribe topics subscribed rest) := by
  cases rest with
  | nil =>
    rw [List.append_nil] at plan
    exact listened_held single (plan ▸ owned) free
  | cons topic rest => exact ⟨single, owned, fun _ _ _ subscribing => by cases subscribing; exact plan⟩

theorem rollback_held (single : s.live.Nodup) (error : String) {rest : List String}
    (owned : ∀ topic ∈ s.live, topic ∈ rest) : Held topics (s.rollback topics error rest) := by
  cases rest with
  | nil =>
    have gone : s.live = [] := List.eq_nil_iff_forall_not_mem.mpr fun topic mem => absurd (owned topic mem) List.not_mem_nil
    have kept : (s.settleListen topics (.error error)).live = s.live ∧
        (s.settleListen topics (.error error)).listenPromise = none := by
      unfold settleListen
      dsimp only
      split <;> exact ⟨rfl, rfl⟩
    refine ⟨kept.1 ▸ single, fun topic mem => ?_, fun _ _ _ subscribing => ?_⟩
    · rw [rollback, kept.1, gone] at mem
      cases mem
    · rw [rollback, kept.2] at subscribing
      cases subscribing
  | cons topic rest => exact ⟨single, owned, nofun⟩

/-- A topic is unsubscribed from, and the rest is still owned. -/
theorem unsubscribed_owned {topic : String} {rest : List String} (owned : ∀ t ∈ s.live, t ∈ topic :: rest) :
    ∀ t ∈ (s.unsubscribed topic).live, t ∈ rest := by
  intro t mem
  obtain ⟨live, other⟩ := List.mem_filter.mp mem
  exact (List.mem_cons.mp (owned t live)).resolve_left (of_decide_eq_true other)

end Transport

/-- No call of `unsubscribe` fails. -/
def Careful (_ : Transport V) : Event V → Prop
  | .rolledBack error | .unsubscribed error => error = none
  | _ => True

theorem step_held {e : Event V} (careful : Careful s e) (inv : Inv s) (h : Held topics s)
    (stays : step topics requestTimeoutMs s e = some t) : Held topics t := by
  cases e with
  | listen =>
    cases stays
    unfold Transport.listen
    dsimp only
    split
    · exact h
    next free =>
      split
      · exact ⟨h.single, h.owned, h.plan⟩
      next quiet =>
        simp only [Bool.or_eq_true, not_or, Bool.not_eq_true, Option.isSome_eq_false_iff, Option.isNone_iff_eq_none] at quiet
        refine Transport.subscribe_held (s := { s with closing := false, closed := none }) h.single (fun topic mem => ?_)
          (List.nil_append _) (inv.free quiet.1)
        have owned := h.owned topic mem
        rwa [inv.owned_silent quiet.1 quiet.2] at owned
  | subscribed error =>
    simp only [step] at stays
    split at stays
    next subscribed topic rest subscribing =>
      have silent := inv.quiet (by simp [subscribing])
      have owned : ∀ t ∈ s.live, t ∈ subscribed := by
        intro t mem
        have owned := h.owned t mem
        rwa [Transport.owned, subscribing] at owned
      have plan := h.plan subscribed topic rest subscribing
      cases error with
      | none =>
        cases stays
        have fresh : topic ∉ subscribed := by
          have distinct : (subscribed ++ topic :: rest).Nodup := plan ▸ topics.distinct
          exact fun mem => (List.nodup_append.mp distinct).2.2 topic mem topic List.mem_cons_self rfl
        refine Transport.subscribe_held (s := { s with live := s.live ++ [topic] }) ?_ (fun t mem => ?_) ?_ (inv.free silent)
        · refine List.nodup_append.mpr ⟨h.single, List.pairwise_singleton _ _, fun t mem other here same => ?_⟩
          rw [same, List.mem_singleton.mp here] at mem
          exact fresh (owned topic mem)
        · rcases List.mem_append.mp mem with mem | mem
          · exact List.mem_append_left _ (owned t mem)
          · exact List.mem_append_right _ mem
        · rw [List.append_assoc]
          exact plan
      | some error =>
        cases stays
        exact Transport.rollback_held h.single error owned
    next => cases stays
  | rolledBack error =>
    simp only [step] at stays
    split at stays
    next topic rest listenError unsubscribing =>
      cases stays
      cases careful
      have owned : ∀ t ∈ s.live, t ∈ topic :: rest := by
        intro t mem
        have owned := h.owned t mem
        rwa [Transport.owned, unsubscribing] at owned
      exact Transport.rollback_held (s := s.unsubscribed topic) (h.single.filter _) listenError
        (Transport.unsubscribed_owned owned)
    next => cases stays
  | close =>
    cases stays
    unfold Transport.close
    dsimp only
    split
    · exact h
    next free =>
      have idle : s.closePromise = none := by simpa using free
      split
      next held =>
        refine ⟨h.single, fun topic mem => ?_, h.plan⟩
        have owned := h.owned topic mem
        simpa only [Transport.owned, Transport.closeTopics, idle] using owned
      next quiet =>
        have settled : s.listenPromise = none := by simpa using quiet
        refine Transport.unsubscribe_held (s := { s with closing := true }) settled h.single none fun topic mem => ?_
        have owned := h.owned topic mem
        simpa only [Transport.owned, Transport.closeTopics, idle, settled] using owned
  | unsubscribed error =>
    simp only [step] at stays
    split at stays
    next topic rest closeError unsubscribing =>
      have settled := inv.settled unsubscribing
      cases careful
      cases stays
      have owned : ∀ t ∈ s.live, t ∈ topic :: rest := by
        intro t mem
        have owned := h.owned t mem
        rwa [Transport.owned, settled, unsubscribing] at owned
      exact Transport.unsubscribe_held (s := s.unsubscribed topic) settled (h.single.filter _) closeError
        (Transport.unsubscribed_owned owned)
    next => cases stays
  | send pattern signal => cases stays; exact ⟨h.single, h.owned, h.plan⟩
  | request index e =>
    obtain ⟨requests, moved, rfl⟩ := Option.map_eq_some_iff.mp stays
    exact ⟨h.single, h.owned, h.plan⟩

/-! ## Runs -/

/-- What is promised of the requests: one that has not settled is under a timer that
settles it, one that has settled stays so and has left nothing behind, and
`close` leaves none that has not settled. -/
structure Settles (topics : Topics) (requestTimeoutMs : Nat) (s : Transport V) : Prop where
  clean : ∀ r ∈ s.requests, r.Valid
  due : ∀ index r, s.requests[index]? = some r → r.outcome = none →
    ∃ t r', step topics requestTimeoutMs s (.request index .timeout) = some t ∧ t.requests[index]? = some r' ∧
      r'.outcome.isSome = true
  stays : ∀ e t, step topics requestTimeoutMs s e = some t → Continues s.requests t.requests
  closed : s.closed ≠ none → ∀ r ∈ s.requests, r.outcome.isSome = true

structure Owns (topics : Topics) (s : Transport V) : Prop where
  single : s.live.Nodup
  closed : s.closed = some (.ok ()) → s.live = []
  owned : ∀ topic ∈ s.live, topic ∈ s.owned topics

theorem run_inv {es : List (Event V)} (run : Run.run (step topics requestTimeoutMs) Transport.initial es = some s) : Inv s :=
  Run.keeps (fun _ _ _ h stays => step_inv h stays) Transport.initial_inv run

theorem run_settles {es : List (Event V)} (run : Run.run (step topics requestTimeoutMs) Transport.initial es = some s) :
    Settles topics requestTimeoutMs s := by
  have inv := run_inv run
  refine ⟨fun r mem => (inv.valid r mem).1, fun index r here unsettled => ?_, fun e t stays => step_continues stays,
    fun closed => inv.idle (inv.closed closed).1⟩
  obtain ⟨valid, started⟩ := inv.valid r (List.mem_of_getElem? here)
  obtain ⟨requests, r', moved, here', settled⟩ :=
    requestStep_due .kafka s.closing requestTimeoutMs here (valid.pending unsettled started).2
  exact ⟨{ s with requests := requests }, r', by simp [step, moved], here', settled⟩

theorem initial_held : Held topics (Transport.initial : Transport V) := by
  constructor <;> simp [Transport.initial]

theorem run_owns {es : List (Event V)} (run : Run.run (step topics requestTimeoutMs) Transport.initial es = some s)
    (careful : Run.Throughout (step topics requestTimeoutMs) Careful Transport.initial es) : Owns topics s := by
  have inv := run_inv run
  have held : Inv s ∧ Held topics s := Run.keeps_throughout (I := fun s => Inv s ∧ Held topics s)
    (fun _ _ _ careful h stays => ⟨step_inv h.1 stays, step_held careful h.1 h.2 stays⟩)
    ⟨Transport.initial_inv, initial_held⟩ careful run
  refine ⟨held.2.single, fun closed => ?_, held.2.owned⟩
  obtain ⟨silent, settled⟩ := inv.closed (by simp [closed])
  refine List.eq_nil_iff_forall_not_mem.mpr fun topic mem => ?_
  have owned := held.2.owned topic mem
  rw [inv.owned_silent silent settled] at owned
  cases owned

end Fluo.Microservices.KafkaTransport
