import Fluo.Http.ByteRange

/-!
# The bytes that a range selects

What a range stands for is stated on the bytes of the representation; the writer
sends exactly these when the number behind the dash is a safe integer.
-/

namespace Fluo.Http

open Js Code

-- What holds of each unit of a text is decided along the text, not over all units.
local instance (priority := 2000) rangeUnits (p : UInt16 → Prop) [DecidablePred p] (s : JsString) :
    Decidable (∀ u ∈ s, p u) :=
  List.decidableBAll p s

/-! ## Streams -/

/-- An uninterrupted loop writes the remaining bytes behind those it skips,
however they are split into chunks. -/
theorem writeReadableStream_flatten (turn skip remaining : Nat) (chunks : List Bytes) :
    (writeReadableStream .none turn skip remaining chunks).flatten = (chunks.flatten.drop skip).take remaining := by
  induction chunks generalizing turn skip remaining with
  | nil => simp [writeReadableStream]
  | cons value rest ih =>
    rw [writeReadableStream]
    simp only [Interruptions.none, Bool.false_eq_true, or_false]
    split
    · next stop => simp [stop]
    · split
      · next skips => rw [← Interruptions.none, ih, List.flatten_cons, List.drop_append, List.drop_eq_nil_of_le skips,
          List.nil_append]
      · next reaches =>
        have within : skip < value.length := Nat.lt_of_not_le reaches
        have chunk : (value.take (min value.length (skip + remaining))).drop skip = (value.drop skip).take remaining := by
          rw [← List.take_take, List.take_of_length_le (by rw [List.length_take]; omega), List.drop_take,
            Nat.add_sub_cancel_left]
        have size : remaining - ((value.drop skip).take remaining).length = remaining - (value.drop skip).length := by
          rw [List.length_take]
          omega
        have written (c : Bytes) : (if c = [] then [] else [c]).flatten = c := by
          split
          · next empty => rw [empty]; rfl
          · exact List.flatten_singleton
        rw [chunk, List.flatten_append, written, ← Interruptions.none, ih, List.drop_zero, List.flatten_cons,
          List.drop_append_of_le_length within.le, List.take_append, size]

/-- Whatever interrupts the loop, what it has written is where the range begins. -/
theorem writeReadableStream_prefix (interruptions : Interruptions) (turn skip remaining : Nat) (chunks : List Bytes) :
    writeReadableStream interruptions turn skip remaining chunks <+:
      writeReadableStream .none turn skip remaining chunks := by
  induction chunks generalizing turn skip remaining with
  | nil => exact List.prefix_rfl
  | cons value rest ih =>
    rw [writeReadableStream]
    split
    · exact List.nil_prefix
    · next runs =>
      have quiet : ¬ (remaining = 0 ∨ Interruptions.none.before turn = true ∨ Interruptions.none.during turn = true) := by
        rw [not_or] at runs
        simpa [Interruptions.none] using runs.1
      rw [writeReadableStream, if_neg quiet]
      split
      · exact ih _ _ _
      · exact (List.prefix_append_right_inj _).mpr (ih _ _ _)

/-- However the bytes are split and whatever interrupts the loop, the chunks that are written are the front of the
range, none of them empty, and all of it once nothing interrupts. -/
theorem writeReadableStream_range (interruptions : Interruptions) (turn skip remaining : Nat) (chunks : List Bytes) :
    (writeReadableStream interruptions turn skip remaining chunks).flatten <+:
        (chunks.flatten.drop skip).take remaining ∧
      [] ∉ writeReadableStream interruptions turn skip remaining chunks ∧
      (writeReadableStream .none turn skip remaining chunks).flatten = (chunks.flatten.drop skip).take remaining := by
  have full := writeReadableStream_flatten turn skip remaining chunks
  refine ⟨?_, ?_, full⟩
  · rw [← full]
    obtain ⟨rest, same⟩ := writeReadableStream_prefix interruptions turn skip remaining chunks
    exact ⟨rest.flatten, by rw [← List.flatten_append, same]⟩
  · induction chunks generalizing turn skip remaining with
    | nil => exact List.not_mem_nil
    | cons value rest ih =>
      rw [writeReadableStream]
      split
      · exact List.not_mem_nil
      split
      · exact ih _ _ _ (writeReadableStream_flatten _ _ _ _)
      · rw [List.mem_append, not_or]
        refine ⟨?_, ih _ _ _ (writeReadableStream_flatten _ _ _ _)⟩
        split
        · exact List.not_mem_nil
        · next some => exact fun mem => some (List.mem_singleton.mp mem).symm

/-! ## What a range stands for -/

/-- `bytes=a-b` with `a ≤ b`, `bytes=a-` or `bytes=-s`, in decimal digits. -/
structure ByteRange where
  first : JsString
  last : JsString
  digits : ∀ u ∈ first ++ last, isDigit u = true
  bounded : first ≠ [] ∨ last ≠ []
  ordered : first ≠ [] → last ≠ [] → numberIn 10 first ≤ numberIn 10 last

namespace ByteRange

variable (range : ByteRange)

def header : JsString := text "bytes=" ++ range.first ++ unit '-' :: range.last

/-- The place of the first byte, and the bytes. -/
def select (content : Bytes) : Option (Nat × Bytes) :=
  if range.first = [] then
    if numberIn 10 range.last = 0 ∨ content = [] then none
    else
      let start := content.length - min (numberIn 10 range.last) content.length
      some (start, content.drop start)
  else
    let start := numberIn 10 range.first
    if content.length ≤ start then none
    else if range.last = [] then some (start, content.drop start)
    else some (start, (content.drop start).take (min (numberIn 10 range.last) (content.length - 1) - start + 1))

/-- The number behind the dash is a safe integer, unless nothing can be selected
anyway. -/
def Readable (size : Nat) : Prop :=
  range.last ≠ [] → numberIn 10 range.last ≤ maxSafeInteger ∨
    if range.first = [] then size = 0 else size ≤ numberIn 10 range.first

end ByteRange

def ByteResponse.body (response : ByteResponse) : Bytes :=
  match response.sent with
  | some (content, _) => content.getD []
  | none => response.written.flatten

def Answers (range : ByteRange) (content : Bytes) (answer : ByteResponse) : Prop :=
  match range.select content with
  | none => answer.statusCode = some 416 ∧ answer.body = [] ∧
      answer.headers.get (text "Content-Length") = some (text "0") ∧
      answer.headers.get (text "Content-Range") = some (unsatisfiedRange content.length)
  | some (start, selected) => answer.statusCode = some 206 ∧ answer.body = selected ∧
      answer.headers.get (text "Content-Length") = some (digitsIn 10 selected.length) ∧
      answer.headers.get (text "Content-Range") =
        some (contentRange start (start + selected.length - 1) content.length)

def ByteResponse.Fresh (response : ByteResponse) : Prop :=
  response.committed = false ∧ response.sent = none ∧ response.written = []

/-- The source has bytes, and the adapter can stream them if they are a stream. -/
def Servable (source : ByteRangeSource) (response : ByteResponse) : Prop :=
  match source with
  | .bytes _ => True
  | .stream _ => response.hasStream = true
  | .other => False

/-! ## The header -/

theorem isDigit_not_white {u : UInt16} (h : isDigit u = true) : isWhiteSpace u = false := by
  simp only [isDigit, Bool.and_eq_true, decide_eq_true_eq, UInt16.le_iff_toNat_le] at h
  have low : 48 ≤ u.toNat := h.1
  have high : u.toNat ≤ 57 := h.2
  exact isWhiteSpace_visible (by omega) (by omega)

theorem parseByteRangeHeader_header (range : ByteRange) :
    parseByteRangeHeader (some range.header) = some (range.first, range.last) := by
  have first : ∀ u ∈ range.first, isDigit u = true := fun u mem => range.digits u (List.mem_append_left _ mem)
  have last : ∀ u ∈ range.last, isDigit u = true := fun u mem => range.digits u (List.mem_append_right _ mem)
  have trimmed : trim range.header = range.header := by
    refine trim_self fun u mem => ?_
    rcases List.mem_append.mp mem with mem | mem
    · rcases List.mem_append.mp mem with mem | mem
      · have unit_ : ∀ v ∈ text "bytes=", isWhiteSpace v = false := by decide
        exact unit_ u mem
      · exact isDigit_not_white (first u mem)
    · rcases List.mem_cons.mp mem with rfl | mem
      · decide
      · exact isDigit_not_white (last u mem)
  have behind : range.header.drop 6 = range.first ++ unit '-' :: range.last := by
    rw [ByteRange.header, List.append_assoc]
    rfl
  have starts : (text "bytes=").isPrefixOf range.header = true := by
    rw [List.isPrefixOf_iff_prefix, ByteRange.header, List.append_assoc]
    exact List.prefix_append _ _
  have dash : isDigit (unit '-') = false := by decide
  rw [parseByteRangeHeader, Option.getD_some, trimmed, if_pos starts, behind, List.dropWhile_append_of_pos first,
    List.takeWhile_append_of_pos first, List.dropWhile_cons_of_neg (by rw [dash]; decide),
    List.takeWhile_cons_of_neg (by rw [dash]; decide), List.append_nil]
  dsimp only
  rw [if_pos]
  refine ⟨rfl, List.all_eq_true.mpr last, ?_⟩
  rcases range.bounded with some_ | some_
  · have := List.length_pos_iff.mpr some_
    omega
  · have := List.length_pos_iff.mpr some_
    omega

/-! ## The range that is resolved -/

theorem resolveByteRange_header (range : ByteRange) (size : Nat) :
    resolveByteRange (some range.header) size true =
      if range.first = [] then
        if isSafeNumber range.last = false ∨ numberIn 10 range.last = 0 ∨ size = 0 then .unsatisfiable
        else .part (size - numberIn 10 range.last) (size - 1)
      else if isSafeNumber range.first = false ∨ size ≤ numberIn 10 range.first then .unsatisfiable
      else if range.last = [] then .part (numberIn 10 range.first) (size - 1)
      else if isSafeNumber range.last = false ∨ numberIn 10 range.last < numberIn 10 range.first then .unsatisfiable
      else .part (numberIn 10 range.first) (min (numberIn 10 range.last) (size - 1)) := by
  simp only [resolveByteRange, parseByteRangeHeader_header]

theorem isSafeNumber_iff {digits : JsString} : isSafeNumber digits = false ↔ maxSafeInteger < numberIn 10 digits := by
  rw [isSafeNumber, decide_eq_false_iff_not, Nat.not_le]

theorem resolveByteRange_readable {range : ByteRange} {content : Bytes} (safe : content.length ≤ maxSafeInteger)
    (readable : range.Readable content.length) :
    match range.select content with
    | none => resolveByteRange (some range.header) content.length true = .unsatisfiable
    | some (start, selected) => ∃ finish,
        resolveByteRange (some range.header) content.length true = .part start finish ∧ start ≤ finish ∧
          finish < content.length ∧ selected = (content.drop start).take (finish - start + 1) := by
  have whole (start : Nat) : content.drop start = (content.drop start).take (content.length - 1 - start + 1) := by
    rw [List.take_of_length_le]
    rw [List.length_drop]
    omega
  rw [resolveByteRange_header, ByteRange.select, ByteRange.Readable] at *
  simp only [isSafeNumber_iff]
  by_cases suffix : range.first = []
  · have last : range.last ≠ [] := range.bounded.resolve_left (not_not.mpr suffix)
    have readable := readable last
    simp only [if_pos suffix] at readable ⊢
    by_cases empty : numberIn 10 range.last = 0 ∨ content = []
    · simp only [if_pos empty]
      rw [if_pos]
      exact .inr (empty.imp id fun same => by rw [same]; rfl)
    · simp only [if_neg empty]
      rw [not_or] at empty
      have positive := List.length_pos_iff.mpr empty.2
      rw [if_neg (by omega)]
      refine ⟨content.length - 1, ?_, by omega, by omega, whole _⟩
      congr 1
      omega
  · simp only [if_neg suffix] at readable ⊢
    by_cases outside : content.length ≤ numberIn 10 range.first
    · simp only [if_pos outside]
      rw [if_pos (.inr outside)]
    · have inside : ¬ (maxSafeInteger < numberIn 10 range.first ∨ content.length ≤ numberIn 10 range.first) := by omega
      simp only [if_neg outside, if_neg inside]
      by_cases open_ : range.last = []
      · simp only [if_pos open_]
        exact ⟨content.length - 1, rfl, by omega, by omega, whole _⟩
      · have ordered := range.ordered suffix open_
        have fits := readable open_
        have valid : ¬ (maxSafeInteger < numberIn 10 range.last ∨ numberIn 10 range.last < numberIn 10 range.first) := by
          omega
        simp only [if_neg open_, if_neg valid]
        exact ⟨min (numberIn 10 range.last) (content.length - 1), rfl, by omega, by omega, rfl⟩

/-- A range that is not readable is refused though it selects something. -/
theorem resolveByteRange_unreadable {range : ByteRange} {content : Bytes}
    (unreadable : ¬ range.Readable content.length) :
    resolveByteRange (some range.header) content.length true = .unsatisfiable ∧ range.select content ≠ none := by
  rw [ByteRange.Readable, Classical.not_imp, not_or, Nat.not_le] at unreadable
  obtain ⟨last, unsafe_, selects⟩ := unreadable
  rw [resolveByteRange_header, ByteRange.select]
  simp only [isSafeNumber_iff]
  by_cases suffix : range.first = []
  · rw [if_pos suffix] at selects ⊢
    rw [if_pos (.inl unsafe_), if_pos suffix, if_neg]
    · exact ⟨rfl, nofun⟩
    · rw [not_or]
      exact ⟨by omega, fun empty => selects (by rw [empty]; rfl)⟩
  · rw [if_neg suffix] at selects ⊢
    rw [if_neg suffix]
    rw [if_neg selects, if_neg last]
    refine ⟨?_, by rw [if_neg last]; exact Option.some_ne_none _⟩
    split
    · rfl
    · rw [if_pos (.inl unsafe_)]

/-! ## The answer -/

/-- What only the writing itself touches is as it was. -/
def SameBody (after before : ByteResponse) : Prop :=
  after.sent = before.sent ∧ after.written = before.written

theorem SuccessMetadata.apply_frame (metadata : SuccessMetadata) (response : ByteResponse) :
    SameBody (metadata.apply response) response := by
  have headers (l : List (JsString × JsString)) (r : ByteResponse) :
      SameBody (l.foldl (fun response header => response.setHeader header.1 header.2) r) r := by
    induction l generalizing r with
    | nil => exact ⟨rfl, rfl⟩
    | cons header l ih => exact ih (r.setHeader header.1 header.2)
  exact headers metadata.headers response

theorem openAnswer_frame (host : CaseMapping) (entry : ByteRangeResponseEntry) (options : ByteRangeWriteOptions)
    (accepts : Bool) (response : ByteResponse) : SameBody (openAnswer host entry options accepts response) response := by
  obtain ⟨sent, written⟩ := options.metadata.apply_frame response
  rw [SameBody, ← sent, ← written, openAnswer]
  split <;> split <;> exact ⟨rfl, rfl⟩

theorem frameRange_frame (entry : ByteRangeResponseEntry) (response : ByteResponse) (range : ResolvedByteRange) :
    SameBody (frameRange entry response range) response := by
  cases range <;> exact ⟨rfl, rfl⟩

theorem frameRange_part (entry : ByteRangeResponseEntry) (response : ByteResponse) (start finish : Nat) :
    (frameRange entry response (.part start finish)).statusCode = some 206 ∧
    (frameRange entry response (.part start finish)).headers.get (text "Content-Length") =
      some (digitsIn 10 (finish - start + 1)) ∧
    (frameRange entry response (.part start finish)).headers.get (text "Content-Range") =
      some (contentRange start finish entry.size) := by
  refine ⟨rfl, ?_, ?_⟩
  · rw [frameRange, ByteResponse.setHeader, OrderedMap.get_set, if_neg (by decide), ByteResponse.setHeader,
      OrderedMap.get_set, if_pos rfl]
  · rw [frameRange, ByteResponse.setHeader, OrderedMap.get_set, if_pos rfl]

theorem frameRange_unsatisfiable (entry : ByteRangeResponseEntry) (response : ByteResponse) :
    (frameRange entry response .unsatisfiable).statusCode = some 416 ∧
    (frameRange entry response .unsatisfiable).headers.get (text "Content-Length") = some (text "0") ∧
    (frameRange entry response .unsatisfiable).headers.get (text "Content-Range") = some (unsatisfiedRange entry.size) := by
  refine ⟨rfl, ?_, ?_⟩
  · rw [frameRange, ByteResponse.setHeader, OrderedMap.get_set, if_neg (by decide), ByteResponse.setHeader,
      OrderedMap.get_set, if_pos rfl]
  · rw [frameRange, ByteResponse.setHeader, OrderedMap.get_set, if_pos rfl]

section

variable {host : CaseMapping} {referenceYear : Int} {request : FrameworkRequest} {entry : ByteRangeResponseEntry}
  {options : ByteRangeWriteOptions} {response : ByteResponse} {range : ByteRange}

theorem Answers.of_part {content : Bytes} {start finish : Nat} {answer : ByteResponse} (ordered : start ≤ finish)
    (inside : finish < content.length)
    (chosen : range.select content = some (start, (content.drop start).take (finish - start + 1)))
    (status : answer.statusCode = some 206) (body : answer.body = (content.drop start).take (finish - start + 1))
    (length : answer.headers.get (text "Content-Length") = some (digitsIn 10 (finish - start + 1)))
    (place : answer.headers.get (text "Content-Range") = some (contentRange start finish content.length)) :
    Answers range content answer := by
  have size : ((content.drop start).take (finish - start + 1)).length = finish - start + 1 := by
    rw [List.length_take, List.length_drop]
    omega
  have last : start + (finish - start + 1) - 1 = finish := by omega
  rw [Answers, chosen]
  dsimp only
  rw [size, last]
  exact ⟨status, body, length, place⟩

/-- A `GET` request for a range that `If-Range` permits. -/
structure Requests (host : CaseMapping) (referenceYear : Int) (request : FrameworkRequest)
    (validators : Option ResponseValidators) (range : ByteRange) : Prop where
  get : host.toUpperCase request.method = text "GET"
  header : readFirstNonEmptyRequestHeaderValue host request (text "range") = some range.header
  permitted : matchesIfRange host referenceYear request validators = true

theorem writeByteRangeResponse_get (requests : Requests host referenceYear request options.validators range)
    (fresh : response.Fresh) (servable : Servable entry.source response) :
    ∃ framed : ByteResponse, framed.sent = none ∧ framed.written = [] ∧
      writeByteRangeResponse host referenceYear request entry options .none response =
        let resolved := resolveByteRange (some range.header) entry.size true
        if resolved = .unsatisfiable then .ok ((frameRange entry framed .unsatisfiable).send none options)
        else
          match entry.source with
          | .bytes content => .ok ((frameRange entry framed resolved).send (some (resolved.slice content)) options)
          | .stream chunks => .ok { frameRange entry framed resolved with
              committed := true
              written := writeReadableStream .none 0 resolved.skip (resolved.remaining entry.size) chunks }
          | .other => .error ⟨text "A byte-range response must contain bytes or a portable readable stream."⟩ := by
  have frame := openAnswer_frame host entry options true response
  refine ⟨openAnswer host entry options true response, frame.1.trans fresh.2.1, frame.2.trans fresh.2.2, ?_⟩
  have accepts : isByteRangeRequestMethod host request.method = true := by
    rw [isByteRangeRequestMethod, requests.get]
    rfl
  have notHead : decide (host.toUpperCase request.method = text "HEAD") = false := by
    rw [requests.get]
    decide
  rw [writeByteRangeResponse, fresh.1, accepts, requests.header, requests.permitted, notHead]
  simp only [Bool.false_eq_true, if_false, if_true, Bool.and_self]
  split
  · next refused => rw [refused]
  · cases source : entry.source with
    | bytes content => rfl
    | stream chunks =>
      rw [source] at servable
      have streams : response.hasStream = true := servable
      simp [streams]
    | other => rfl

/-- The answer to a range is the one that it calls for exactly when the number
behind the dash is a safe integer or nothing can be selected. -/
theorem writeByteRangeResponse_answers_iff (requests : Requests host referenceYear request options.validators range)
    (fresh : response.Fresh) (servable : Servable entry.source response) :
    (∃ answer, writeByteRangeResponse host referenceYear request entry options .none response = .ok answer ∧
      Answers range entry.source.content answer) ↔ range.Readable entry.size := by
  have known : entry.source ≠ .other := by
    intro other
    rw [other] at servable
    exact servable
  have sized := entry.sized known
  have safe := entry.safe
  rw [← sized] at safe ⊢
  obtain ⟨framed, unsent, unwritten, answered⟩ := writeByteRangeResponse_get requests fresh servable
  rw [answered, ← sized]
  constructor
  · rintro ⟨answer, written, answers⟩
    by_contra unreadable
    obtain ⟨refused, selects⟩ := resolveByteRange_unreadable unreadable
    rw [refused] at written
    obtain rfl := Except.ok.inj written
    obtain ⟨⟨start, selected⟩, chosen⟩ := Option.ne_none_iff_exists'.mp selects
    rw [Answers, chosen] at answers
    exact absurd answers.1 (by simp [ByteResponse.send, frameRange_unsatisfiable])
  · intro readable
    have resolved := resolveByteRange_readable safe readable
    cases chosen : range.select entry.source.content with
    | none =>
      rw [chosen] at resolved
      obtain ⟨status, length, place⟩ := frameRange_unsatisfiable entry framed
      refine ⟨_, by rw [resolved]; rfl, ?_⟩
      rw [Answers, chosen, sized]
      exact ⟨status, rfl, length, place⟩
    | some selection =>
      obtain ⟨start, selected⟩ := selection
      rw [chosen] at resolved
      obtain ⟨finish, resolved, ordered, inside, rfl⟩ := resolved
      obtain ⟨status, length, place⟩ := frameRange_part entry framed start finish
      rw [resolved]
      rw [← sized] at place
      cases source : entry.source with
      | bytes content =>
        rw [source] at chosen place inside
        refine ⟨_, rfl, .of_part ordered inside chosen status ?_ length place⟩
        show (content.take (finish + 1)).drop start = (content.drop start).take (finish - start + 1)
        rw [List.drop_take, Nat.sub_add_comm ordered]
      | stream chunks =>
        rw [source] at chosen place inside
        refine ⟨_, rfl, .of_part ordered inside chosen status ?_ length place⟩
        have unsent : (frameRange entry framed (.part start finish)).sent = none :=
          (frameRange_frame entry framed (.part start finish)).1.trans unsent
        simp only [ByteResponse.body, unsent]
        exact writeReadableStream_flatten 0 start (finish - start + 1) chunks
      | other => exact absurd source known

end

/-! ## Six bytes -/

def sixBytes : ByteRangeResponseEntry where
  contentType := text "application/octet-stream"
  size := 6
  source := .stream [[0, 1], [], [2, 3, 4], [5]]
  safe := by decide
  sized := fun _ => rfl

def plainOptions : ByteRangeWriteOptions := ⟨⟨[], some 200⟩, false, none⟩

def untouched : ByteResponse := ⟨false, none, .empty, true, none, []⟩

def rangeRequest (header : JsString) : FrameworkRequest :=
  ⟨text "GET", false, text "/logo", [(text "range", some (.one header))]⟩

def twoToFour : ByteRange := ⟨text "2", text "4", by decide, by decide, by decide⟩

theorem twoToFour_answered : ∃ answer,
    writeByteRangeResponse .same 2026 (rangeRequest twoToFour.header) sixBytes plainOptions .none untouched = .ok answer ∧
      Answers twoToFour [0, 1, 2, 3, 4, 5] answer := by
  have requests : Requests .same 2026 (rangeRequest twoToFour.header) plainOptions.validators twoToFour :=
    ⟨by decide, by decide, by decide⟩
  have fresh : untouched.Fresh := ⟨rfl, rfl, rfl⟩
  have servable : Servable sixBytes.source untouched := rfl
  exact (writeByteRangeResponse_answers_iff requests fresh servable).mpr fun _ => .inl (by decide)

/-- `bytes=0-9007199254740992`: all six bytes. -/
def beyondSafe : ByteRange := ⟨text "0", text "9007199254740992", by decide, by decide, by decide⟩

/-- A range that ends beyond the safe integers is refused though it has bytes. -/
theorem beyondSafe_refused :
    beyondSafe.select sixBytes.source.content = some (0, [0, 1, 2, 3, 4, 5]) ∧
    ∃ answer, writeByteRangeResponse .same 2026 (rangeRequest beyondSafe.header) sixBytes plainOptions .none untouched =
        .ok answer ∧
      answer.statusCode = some 416 ∧ ¬ Answers beyondSafe sixBytes.source.content answer := by
  have selected : beyondSafe.select sixBytes.source.content = some (0, [0, 1, 2, 3, 4, 5]) := by decide
  refine ⟨selected, _, rfl, rfl, fun answers => ?_⟩
  rw [Answers, selected] at answers
  exact absurd answers.1 (by decide)

end Fluo.Http
