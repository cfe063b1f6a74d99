import Fluo.Lib.Run
import Fluo.Microservices.RedisStreams
import Mathlib.Logic.Function.Basic

/-!
# Delivery from a stream

A consumer group of one stream: entries are appended, read, reclaimed while
they are pending, and acknowledged, with any failures in between.
-/

namespace Fluo.Microservices

open Fluo.Run

variable {Json : Type}

/-! ## One entry -/

/-- The entry is one that its stream is for. -/
def wellFormed (stream : Stream) (fields : Fields Json) : Bool :=
  (parseFields fields).any fun message =>
    match stream with
    | .messages => message.kind = .message && message.requestId.isSome
    | .events => message.kind = .event
    | .responses => message.kind = .response && message.requestId.isSome

def Fate.unanswered (fate : Fate Json) : Bool :=
  match fate.outcome with
  | .fulfilled _ => fate.published.fails && fate.errorPublished.fails
  | .rejected _ => fate.errorPublished.fails

/-- Something fails for an entry other than the handler: the publication of the reply, the acknowledgement or the removal.
An event whose handler fails stays pending. -/
def stumbles (stream : Stream) (fields : Fields Json) (fate : Fate Json) : Bool :=
  if (parseFields fields).isNone then fate.acked.fails
  else if stream = .messages && wellFormed stream fields && fate.unanswered then true
  else if stream = .events && wellFormed stream fields && fate.outcome.rejects then false
  else fate.acked.fails || (stream ≠ .events && fate.deleted.fails)

theorem handleInboundRequest_called (self : Nat) {message : RedisStreamTransportMessage Json} (fate : Fate Json)
    (kind : message.kind = .message) (id : message.requestId.isSome = true) :
    (handleInboundRequest self message fate).handed = true ∧
      (handleInboundRequest self message fate).throws = fate.unanswered := by
  obtain ⟨requestId, is⟩ := Option.isSome_iff_exists.mp id
  simp only [handleInboundRequest, kind, is, Fate.unanswered]
  cases fate.outcome with
  | fulfilled payload => cases fate.published <;> exact ⟨rfl, rfl⟩
  | rejected error => exact ⟨rfl, rfl⟩

theorem handleInboundRequest_other (self : Nat) {message : RedisStreamTransportMessage Json} (fate : Fate Json)
    (other : (decide (message.kind = .message) && message.requestId.isSome) = false) :
    handleInboundRequest self message fate = ⟨[], false, false⟩ := by
  unfold handleInboundRequest
  split
  · next kind id =>
    rw [kind, id] at other
    cases other
  · rfl

theorem handleInboundResponse_isSome (message : RedisStreamTransportMessage Json) :
    (handleInboundResponse message).isSome = (decide (message.kind = .response) && message.requestId.isSome) := by
  unfold handleInboundResponse
  split
  · next kind id =>
    rw [kind, id]
    split <;> rfl
  · next others =>
    cases kind : message.kind with
    | event | message => rfl
    | response =>
      cases id : message.requestId with
      | none => rfl
      | some requestId => exact absurd id (others requestId kind)

/-- What is done with an entry that its stream is for. -/
theorem pollEntry_formed {consumer : Consumer} {fields : Fields Json} (formed : wellFormed consumer.stream fields = true)
    (fate : Fate Json) : (pollEntry consumer fields fate).handed = true ∧
      ((pollEntry consumer fields fate).acked = true → (pollEntry consumer fields fate).succeeded = true) ∧
      (pollEntry consumer fields fate).throws = stumbles consumer.stream fields fate := by
  obtain ⟨message, parsed, shape⟩ := (Option.any_eq_true _ _).mp formed
  obtain ⟨stream, self, reclaims⟩ := consumer
  simp only [pollEntry, parsed, handleEntry, stumbles, formed, Option.isNone_some]
  cases stream with
  | messages =>
    simp only [Bool.and_eq_true, decide_eq_true_eq] at shape
    obtain ⟨handed, throws⟩ := handleInboundRequest_called self fate shape.1 shape.2
    simp only [handed, throws]
    cases fate.unanswered <;> simp [acknowledge]
  | events =>
    simp only [decide_eq_true_eq] at shape
    simp only [shape]
    split
    · next is => simp [acknowledge, is, Outcome.rejects]
    · next is => simp [is, Outcome.rejects]
  | responses =>
    have found : (handleInboundResponse message).isSome = true := by
      rw [handleInboundResponse_isSome]
      exact shape
    simp [acknowledge, found]

theorem pollEntry_throws (consumer : Consumer) (fields : Fields Json) (fate : Fate Json) :
    (pollEntry consumer fields fate).throws = stumbles consumer.stream fields fate := by
  cases formed : wellFormed consumer.stream fields with
  | true => exact (pollEntry_formed formed fate).2.2
  | false =>
    cases parsed : parseFields fields with
    | none => simp [pollEntry, stumbles, parsed]
    | some message =>
      have other := formed
      simp only [wellFormed, parsed, Option.any_some] at other
      simp only [pollEntry, parsed, handleEntry, stumbles, formed, Option.isNone_some]
      cases is : consumer.stream with
      | messages =>
        rw [is] at other
        simp [handleInboundRequest_other _ _ other, acknowledge]
      | events =>
        rw [is] at other
        cases kind : message.kind with
        | event => simp [kind] at other
        | message | response => simp [acknowledge]
      | responses => simp [acknowledge]

/-! ## One batch -/

/-- The entry has been handed to its handler, or to the request that it answers. -/
def HandedOver (entry : Nat × Option Processed) : Prop := ∃ processed, entry.2 = some processed ∧ processed.handed = true

/-- No entry stumbles in front of one that its stream is for. -/
def StumblesLast (stream : Stream) (fields : Nat → Fields Json) (batch : List (Nat × Fate Json)) : Prop :=
  batch.Pairwise fun earlier later =>
    stumbles stream (fields earlier.1) earlier.2 = true → wellFormed stream (fields later.1) = false

instance (stream : Stream) (fields : Nat → Fields Json) (batch : List (Nat × Fate Json)) :
    Decidable (StumblesLast stream fields batch) :=
  inferInstanceAs (Decidable (List.Pairwise _ _))

/-- All of a batch are handed over just if none stumbles in front of another. -/
theorem pollBatch_handed (consumer : Consumer) (fields : Nat → Fields Json) (batch : List (Nat × Fate Json)) :
    (∀ entry ∈ pollBatch consumer fields batch, wellFormed consumer.stream (fields entry.1) = true → HandedOver entry) ↔
      StumblesLast consumer.stream fields batch := by
  induction batch with
  | nil => exact ⟨fun _ => List.Pairwise.nil, fun _ => nofun⟩
  | cons first rest ih =>
    obtain ⟨id, fate⟩ := first
    have throws := pollEntry_throws consumer (fields id) fate
    rw [StumblesLast, List.pairwise_cons, pollBatch]
    constructor
    · intro handed
      have behind (entry) (mem) := handed entry (List.mem_cons_of_mem _ mem)
      split at behind
      · next thrown =>
        have spoiled (later : Nat × Fate Json) (mem : later ∈ rest) : wellFormed consumer.stream (fields later.1) = false := by
          refine Bool.eq_false_iff.mpr fun formed => ?_
          obtain ⟨processed, is, -⟩ := behind (later.1, none) (List.mem_map_of_mem mem) formed
          cases is
        exact ⟨fun later mem _ => spoiled later mem,
          List.Pairwise.imp_of_mem (fun _ mem _ _ => spoiled _ mem) (List.pairwise_of_forall fun _ _ => trivial)⟩
      · next goes =>
        exact ⟨fun later mem stumbled => absurd (throws.trans stumbled) goes, ih.mp behind⟩
    · rintro ⟨ahead, last⟩ entry mem formed
      rcases List.mem_cons.mp mem with rfl | mem
      · exact ⟨_, rfl, (pollEntry_formed formed fate).1⟩
      · split at mem
        · next thrown =>
          obtain ⟨later, behind, rfl⟩ := List.mem_map.mp mem
          rw [ahead later behind (throws.symm.trans thrown)] at formed
          cases formed
        · exact ih.mpr last entry mem formed

theorem pollBatch_ids (consumer : Consumer) (fields : Nat → Fields Json) (batch : List (Nat × Fate Json)) :
    (pollBatch consumer fields batch).map Prod.fst = batch.map Prod.fst := by
  induction batch with
  | nil => rfl
  | cons first rest ih =>
    rw [pollBatch, List.map_cons, List.map_cons]
    split
    · rw [List.map_map]
      rfl
    · rw [ih]

theorem pollBatch_acked {consumer : Consumer} {fields : Nat → Fields Json} {batch : List (Nat × Fate Json)} {id : Nat}
    {processed : Processed} (mem : (id, some processed) ∈ pollBatch consumer fields batch)
    (formed : wellFormed consumer.stream (fields id) = true) (acked : processed.acked = true) :
    processed.succeeded = true := by
  induction batch with
  | nil => cases mem
  | cons first rest ih =>
    rw [pollBatch] at mem
    rcases List.mem_cons.mp mem with same | mem
    · cases same
      exact (pollEntry_formed formed first.2).2.1 acked
    · split at mem
      · obtain ⟨later, -, is⟩ := List.mem_map.mp mem
        cases is
      · exact ih mem

/-! ## The group -/

structure GroupState (Json : Type) where
  fields : Nat → Fields Json
  count : Nat
  delivered : Nat
  pending : List Nat
  batches : List (List (Nat × Option Processed))

inductive GroupEvent (Json : Type)
  | append (fields : Fields Json)
  | read (fates : List (Fate Json))
  | reclaim (batch : List (Nat × Fate Json))

def GroupState.initial : GroupState Json := ⟨fun _ => ⟨none, none, none, none, none, none⟩, 0, 0, [], []⟩

def acknowledged (results : List (Nat × Option Processed)) : List Nat :=
  (results.filter fun entry => entry.2.any (·.acked)).map Prod.fst

/-- `pollStream` goes through a batch. -/
def GroupState.process (consumer : Consumer) (s : GroupState Json) (batch : List (Nat × Fate Json)) : GroupState Json :=
  let results := pollBatch consumer s.fields batch
  { s with pending := s.pending.filter (· ∉ acknowledged results), batches := s.batches ++ [results] }

def GroupState.unread (s : GroupState Json) (fates : List (Fate Json)) : List (Nat × Fate Json) :=
  (List.range' s.delivered fates.length).zip fates

def groupStep (consumer : Consumer) (s : GroupState Json) : GroupEvent Json → Option (GroupState Json)
  | .append fields => some { s with fields := Function.update s.fields s.count fields, count := s.count + 1 }
  | .read fates =>
    if s.delivered + fates.length ≤ s.count then
      some ({ s with
        delivered := s.delivered + fates.length
        pending := s.pending ++ List.range' s.delivered fates.length }.process consumer (s.unread fates))
    else none
  | .reclaim batch =>
    if consumer.reclaimsPending = true ∧ (batch.map Prod.fst).Nodup ∧ ∀ entry ∈ batch, entry.1 ∈ s.pending then
      some (s.process consumer batch)
    else none

/-- The batch of a step has no entry that stumbles in front of another. -/
def Isolates (consumer : Consumer) (s : GroupState Json) : GroupEvent Json → Prop
  | .append _ => True
  | .read fates => StumblesLast consumer.stream s.fields (s.unread fates)
  | .reclaim batch => StumblesLast consumer.stream s.fields batch

instance (consumer : Consumer) (s : GroupState Json) : (e : GroupEvent Json) → Decidable (Isolates consumer s e)
  | .append _ => isTrue trivial
  | .read fates => inferInstanceAs (Decidable (StumblesLast consumer.stream s.fields (s.unread fates)))
  | .reclaim batch => inferInstanceAs (Decidable (StumblesLast consumer.stream s.fields batch))

/-- An entry has been handed over in some batch. -/
def GroupState.Handed (s : GroupState Json) (id : Nat) : Prop :=
  ∃ batch ∈ s.batches, ∃ entry ∈ batch, entry.1 = id ∧ HandedOver entry

structure AtLeastOnce (consumer : Consumer) (s : GroupState Json) : Prop where
  /-- An entry that has been read is handed over, or is pending and will be reclaimed. -/
  delivered : ∀ id < s.delivered, wellFormed consumer.stream (s.fields id) = true →
    s.Handed id ∨ id ∈ s.pending ∧ consumer.reclaimsPending = true
  /-- It is pending until it is acknowledged, and that is when it has succeeded. -/
  pending : ∀ id < s.delivered, id ∈ s.pending ∨ ∃ batch ∈ s.batches, id ∈ acknowledged batch
  acknowledged : ∀ batch ∈ s.batches, ∀ id processed, (id, some processed) ∈ batch → processed.acked = true →
    wellFormed consumer.stream (s.fields id) = true → processed.succeeded = true
  /-- An entry that fails keeps no other one of its batch from its handler. -/
  isolated : ∀ batch ∈ s.batches, ∀ id processed, (id, some processed) ∈ batch →
    (processed.throws = true ∨ processed.succeeded = false) → ∀ entry ∈ batch, entry.1 ≠ id →
      wellFormed consumer.stream (s.fields entry.1) = true → HandedOver entry

/-! ## Runs -/

/-- What holds while a batch with the entries `ahead` is under way. -/
structure Delivers (consumer : Consumer) (s : GroupState Json) (ahead : List Nat) : Prop where
  inside : s.delivered ≤ s.count
  waiting : ∀ id ∈ s.pending, id < s.delivered
  known : ∀ batch ∈ s.batches, ∀ entry ∈ batch, entry.1 < s.delivered
  handed : ∀ batch ∈ s.batches, ∀ entry ∈ batch, wellFormed consumer.stream (s.fields entry.1) = true → HandedOver entry
  delivered : ∀ id < s.delivered, wellFormed consumer.stream (s.fields id) = true → s.Handed id ∨ id ∈ ahead
  pending : ∀ id < s.delivered, id ∈ s.pending ∨ ∃ batch ∈ s.batches, id ∈ acknowledged batch
  acknowledged : ∀ batch ∈ s.batches, ∀ id processed, (id, some processed) ∈ batch → processed.acked = true →
    wellFormed consumer.stream (s.fields id) = true → processed.succeeded = true

theorem Delivers.process {consumer : Consumer} {s : GroupState Json} {batch : List (Nat × Fate Json)}
    (delivers : Delivers consumer s (batch.map Prod.fst)) (known : ∀ id ∈ batch.map Prod.fst, id < s.delivered)
    (last : StumblesLast consumer.stream s.fields batch) : Delivers consumer (s.process consumer batch) [] := by
  have results : ∀ entry ∈ pollBatch consumer s.fields batch, entry.1 ∈ batch.map Prod.fst := by
    intro entry mem
    rw [← pollBatch_ids consumer s.fields]
    exact List.mem_map_of_mem mem
  have both {P : List (Nat × Option Processed) → Prop} (before : ∀ b ∈ s.batches, P b)
      (new : P (pollBatch consumer s.fields batch)) : ∀ b ∈ (s.process consumer batch).batches, P b := by
    intro b mem
    rcases List.mem_append.mp mem with old | here
    · exact before b old
    · rw [List.mem_singleton.mp here]
      exact new
  refine ⟨delivers.inside, fun id mem => delivers.waiting id (List.mem_of_mem_filter mem),
    both delivers.known fun entry mem => known _ (results entry mem),
    both delivers.handed ((pollBatch_handed consumer s.fields batch).mpr last), fun id below formed => .inl ?_,
    fun id below => ?_, both delivers.acknowledged fun id processed mem acked formed => pollBatch_acked mem formed acked⟩
  · rcases delivers.delivered id below formed with ⟨b, mem, handed⟩ | here
    · exact ⟨b, List.mem_append_left _ mem, handed⟩
    · rw [← pollBatch_ids consumer s.fields] at here
      obtain ⟨entry, mem, is⟩ := List.mem_map.mp here
      refine ⟨_, List.mem_append_right _ (List.mem_singleton_self _), entry, mem, is, ?_⟩
      exact (pollBatch_handed consumer s.fields batch).mpr last entry mem (is ▸ formed)
  · by_cases done : id ∈ Fluo.Microservices.acknowledged (pollBatch consumer s.fields batch)
    · exact .inr ⟨_, List.mem_append_right _ (List.mem_singleton_self _), done⟩
    · rcases delivers.pending id below with waits | ⟨b, mem, acked⟩
      · exact .inl (List.mem_filter.mpr ⟨waits, by simpa using done⟩)
      · exact .inr ⟨b, List.mem_append_left _ mem, acked⟩

theorem unread_ids (s : GroupState Json) (fates : List (Fate Json)) :
    (s.unread fates).map Prod.fst = List.range' s.delivered fates.length :=
  List.map_fst_zip (by rw [List.length_range'])

theorem Delivers.step {consumer : Consumer} {s t : GroupState Json} {e : GroupEvent Json} (delivers : Delivers consumer s [])
    (isolates : Isolates consumer s e) (is : groupStep consumer s e = some t) : Delivers consumer t [] := by
  cases e with
  | append fields =>
    cases is
    have same {id : Nat} (below : id < s.delivered) : Function.update s.fields s.count fields id = s.fields id :=
      Function.update_of_ne (Nat.ne_of_lt (Nat.lt_of_lt_of_le below delivers.inside)) _ _
    refine ⟨Nat.le_succ_of_le delivers.inside, delivers.waiting, delivers.known, fun batch mem entry here formed => ?_,
      fun id below formed => ?_, delivers.pending, fun batch mem id processed here acked formed => ?_⟩
    · dsimp only at formed
      rw [same (delivers.known batch mem entry here)] at formed
      exact delivers.handed batch mem entry here formed
    · dsimp only at formed
      rw [same below] at formed
      exact delivers.delivered id below formed
    · dsimp only at formed
      rw [same (delivers.known batch mem _ here)] at formed
      exact delivers.acknowledged batch mem id processed here acked formed
  | read fates =>
    obtain ⟨there, is⟩ := Option.ite_none_right_eq_some.mp is
    cases is
    refine Delivers.process ?_ (fun id mem => ?_) isolates
    · rw [unread_ids]
      refine ⟨there, fun id mem => ?_, fun batch mem entry here => ?_, delivers.handed, fun id below formed => ?_,
        fun id below => ?_, delivers.acknowledged⟩
      · rcases List.mem_append.mp mem with before | here
        · exact Nat.lt_add_right _ (delivers.waiting id before)
        · exact (List.mem_range'_1.mp here).2
      · exact Nat.lt_add_right _ (delivers.known batch mem entry here)
      · by_cases old : id < s.delivered
        · exact (delivers.delivered id old formed).imp_right nofun
        · exact .inr (List.mem_range'_1.mpr ⟨Nat.le_of_not_lt old, below⟩)
      · by_cases old : id < s.delivered
        · exact (delivers.pending id old).imp_left (List.mem_append_left _)
        · exact .inl (List.mem_append_right _ (List.mem_range'_1.mpr ⟨Nat.le_of_not_lt old, below⟩))
    · rw [unread_ids] at mem
      exact (List.mem_range'_1.mp mem).2
  | reclaim batch =>
    obtain ⟨⟨-, -, there⟩, is⟩ := Option.ite_none_right_eq_some.mp is
    cases is
    refine Delivers.process ?_ (fun id mem => ?_) isolates
    · exact ⟨delivers.inside, delivers.waiting, delivers.known, delivers.handed,
        fun id below formed => (delivers.delivered id below formed).imp_right nofun, delivers.pending,
        delivers.acknowledged⟩
    · obtain ⟨entry, here, rfl⟩ := List.mem_map.mp mem
      exact delivers.waiting _ (there entry here)

/-- Delivery is at least once in every run where no entry stumbles in front of another of its batch. -/
theorem delivered_at_least_once (consumer : Consumer) (es : List (GroupEvent Json)) (s : GroupState Json)
    (isolates : Throughout (groupStep consumer) (Isolates consumer) .initial es)
    (reached : run (groupStep consumer) .initial es = some s) : AtLeastOnce consumer s := by
  have delivers : Delivers consumer s [] := by
    refine keeps_throughout (fun _ _ _ isolates delivers is => Delivers.step delivers isolates is) ?_ isolates reached
    exact ⟨Nat.le_refl _, nofun, nofun, nofun, nofun, nofun, nofun⟩
  refine ⟨fun id below formed => .inl ?_, delivers.pending, delivers.acknowledged,
    fun batch mem id processed here failed entry there other formed => delivers.handed batch mem entry there formed⟩
  exact (delivers.delivered id below formed).resolve_right nofun

/-! ## A failure in a batch -/

def response (requestId : Nat) : Fields Nat := ⟨none, some .response, some [97], some (.value 0), none, some requestId⟩

def smooth : Fate Nat := ⟨.fulfilled 0, .done, .done, .done, .done⟩

/-- The connection is lost when an entry is acknowledged. -/
def disconnected : Fate Nat := { smooth with acked := .failed false .other }

/-- The consumer of the responses of its own transport. -/
def responseConsumer : Consumer := ⟨.responses, 0, true⟩

def twoResponses (first second : Fate Nat) : List (GroupEvent Nat) :=
  [.append (response 0), .append (response 1), .read [first, second]]

theorem delivered_at_least_once_last :
    ∃ s, run (groupStep responseConsumer) .initial (twoResponses smooth disconnected) = some s ∧ s.pending = [1] ∧
      AtLeastOnce responseConsumer s := by
  have reached : ((run (groupStep responseConsumer) .initial (twoResponses smooth disconnected)).map (·.pending)) =
      some [1] := by decide
  obtain ⟨s, reached, pending⟩ := Option.map_eq_some_iff.mp reached
  exact ⟨s, reached, pending, delivered_at_least_once responseConsumer (twoResponses smooth disconnected) s (by decide) reached⟩

/-- An acknowledgement that fails keeps the next response from its request, for good. -/
theorem response_lost :
    ¬ ∀ consumer (es : List (GroupEvent Nat)) s, run (groupStep consumer) .initial es = some s → AtLeastOnce consumer s := by
  intro always
  have reached : ((run (groupStep responseConsumer) .initial (twoResponses disconnected smooth)).map fun s =>
      (s.delivered, s.batches, wellFormed .responses (s.fields 1))) =
        some (2, [[(0, some ⟨true, true, false, true⟩), (1, none)]], true) := rfl
  obtain ⟨s, reached, facts⟩ := Option.map_eq_some_iff.mp reached
  simp only [Prod.mk.injEq] at facts
  obtain ⟨delivered, batches, formed⟩ := facts
  rcases (always responseConsumer _ s reached).delivered 1 (by omega) formed with ⟨batch, mem, entry, here, is, handed⟩ | ⟨-, reclaims⟩
  · rw [batches, List.mem_singleton] at mem
    subst mem
    obtain ⟨processed, some, -⟩ := handed
    simp only [List.mem_cons, List.not_mem_nil, or_false] at here
    rcases here with rfl | rfl
    · cases is
    · cases some
  · cases reclaims

end Fluo.Microservices
