import Mathlib.Data.Rat.Floor
import Mathlib.Tactic.NormNum
import Fluo.Lib.EventStream
import Fluo.Http.AddressText

/-!
# Server-sent events

The encoder of messages and comments, and what a client reads from its output.
-/

namespace Fluo.Http

open Js Code EventStream

/-- A delay that a client should wait: no number, an infinite one, or a number of
which `String` gives the digits. -/
inductive Retry where
  | nan
  | infinite
  | finite (q : ℚ) (below : q < 10 ^ 21)

/-- The options of a message; the id as `String` gives it. -/
structure SseSendOptions where
  event : Option JsString
  id : Option JsString
  retry : Option Retry

/-- The data of a message: a string, or another value with what `JSON.stringify`
makes of it. -/
inductive SseData where
  | undefined
  | string (s : JsString)
  | value (serialized : Option JsString)
  deriving DecidableEq, Repr

def sanitizeSseField (value : JsString) : JsString :=
  (value.filter (· ≠ carriageReturn)).filter (· ≠ lineFeed)

/-- `value.replace(/\r\n/g, '\n')` -/
def replacePairs : JsString → JsString
  | [] => []
  | [u] => [u]
  | u :: v :: rest =>
    if u = carriageReturn ∧ v = lineFeed then lineFeed :: replacePairs rest else u :: replacePairs (v :: rest)

/-- The text with one line feed for each line end. -/
def normalizedLines (value : JsString) : JsString :=
  (replacePairs value).map fun u => if u = carriageReturn then lineFeed else u

def splitSseLines (value : JsString) : List JsString := (normalizedLines value).splitOn lineFeed

/-- `none` where the data is not serializable. -/
def toSseDataString : SseData → Option JsString
  | .undefined => some []
  | .string s => some s
  | .value serialized => serialized

def retryLines : Option Retry → List JsString
  | some (.finite q _) => if 0 ≤ q then [text "retry: " ++ digitsIn 10 q.floor.toNat] else []
  | _ => []

/-- A frame of lines, which ends in a blank line. -/
def frame (lines : List JsString) : JsString := join lineFeed lines ++ [lineFeed, lineFeed]

def commentLines (comment : JsString) : List JsString :=
  (splitSseLines comment).map fun line => if line = [] then text ":" else text ": " ++ line

def messageLines (sent : JsString) (options : SseSendOptions) : List JsString :=
  (options.event.map fun event => text "event: " ++ sanitizeSseField event).toList ++
    (options.id.map fun id => text "id: " ++ sanitizeSseField id).toList ++
    retryLines options.retry ++
    (splitSseLines sent).map fun line => text "data: " ++ line

def encodeSseComment (comment : JsString) : JsString := frame (commentLines comment)

def encodeSseMessage (data : SseData) (options : SseSendOptions) : Option JsString :=
  (toSseDataString data).map fun sent => frame (messageLines sent options)

inductive SseCall where
  | message (data : SseData) (options : SseSendOptions)
  | comment (comment : JsString)

def SseCall.encode : SseCall → Option JsString
  | .message data options => encodeSseMessage data options
  | .comment said => some (encodeSseComment said)

/-! ## What a client should read -/

def eventType (options : SseSendOptions) : JsString :=
  match options.event with
  | none => text "message"
  | some event => if sanitizeSseField event = [] then text "message" else sanitizeSseField event

def sentEvents (lastEventId : JsString) : List SseCall → List Event
  | [] => []
  | SseCall.comment _ :: calls => sentEvents lastEventId calls
  | SseCall.message data options :: calls =>
    let id := (options.id.map sanitizeSseField).getD lastEventId
    ⟨eventType options, normalizedLines ((toSseDataString data).getD []), id⟩ :: sentEvents id calls

/-! ## Lines -/

theorem unbroken_sanitized (s : JsString) : Unbroken (sanitizeSseField s) := by
  intro u mem
  rw [sanitizeSseField, List.mem_filter, List.mem_filter] at mem
  exact ⟨of_decide_eq_true mem.2, of_decide_eq_true mem.1.2⟩

theorem unbroken_line {s line : JsString} (mem : line ∈ splitSseLines s) : Unbroken line := by
  intro u inside
  refine ⟨fun same => not_mem_of_mem_splitOn mem (same ▸ inside), ?_⟩
  have whole : u ∈ normalizedLines s := by
    have joined : join lineFeed (splitSseLines s) = normalizedLines s := join_splitOn _
    rw [← joined]
    clear joined
    generalize splitSseLines s = l at mem
    induction l with
    | nil => cases mem
    | cons x l ih =>
      cases l with
      | nil => exact List.mem_singleton.mp mem ▸ inside
      | cons y l =>
        rw [join_cons_cons, List.mem_append, List.mem_cons]
        rcases List.mem_cons.mp mem with rfl | later
        · exact .inl inside
        · exact .inr (.inr (ih later))
  obtain ⟨v, -, eq⟩ := List.mem_map.mp whole
  rw [← eq]
  split
  · decide
  · assumption

theorem splitSseLines_ne_nil (s : JsString) : splitSseLines s ≠ [] := List.splitOn_ne_nil _ _

theorem join_lineFeed {lines : List JsString} (some_ : lines ≠ []) :
    join lineFeed lines ++ [lineFeed] = lines.flatMap (· ++ [lineFeed]) := by
  induction lines with
  | nil => exact absurd rfl some_
  | cons x lines ih =>
    cases lines with
    | nil => simp [join]
    | cons y lines =>
      rw [join_cons_cons, List.append_assoc, List.cons_append, ih (List.cons_ne_nil _ _)]
      simp

theorem frame_eq {lines : List JsString} (some_ : lines ≠ []) : frame lines = lines.flatMap (· ++ [lineFeed]) ++ [lineFeed] := by
  rw [frame, ← join_lineFeed some_, List.append_assoc]
  rfl

/-- A frame is read as its lines and a blank one. -/
theorem linesFrom_frame {lines : List JsString} (some_ : lines ≠ []) (unbroken : ∀ s ∈ lines, Unbroken s) (rest : JsString) :
    linesFrom [] (frame lines ++ rest) = lines ++ [] :: linesFrom [] rest := by
  rw [frame_eq some_, List.append_assoc, linesFrom_flatMap unbroken, List.singleton_append, linesFrom_lineFeed]

/-! ## Frames -/

/-- Between frames nothing is collected, and the last id has been dispatched. -/
structure Idle (d : Decoder) : Prop where
  data : d.data = []
  eventType : d.eventType = []
  dispatched : d.lastEventId = d.lastEventIdBuffer

theorem dispatch_idle {d : Decoder} (idle : Idle d) : d.dispatch = d := by
  obtain ⟨data, type, buffer, id, time, events⟩ := d
  obtain ⟨noData, noType, dispatched⟩ := idle
  dsimp only at noData noType dispatched
  subst noData noType dispatched
  rfl

theorem lines_comment {d : Decoder} (idle : Idle d) (comment : JsString) : d.lines (commentLines comment ++ [[]]) = d := by
  have colons : ∀ s ∈ commentLines comment, ∃ rest, s = unit ':' :: rest := by
    intro s mem
    obtain ⟨line, -, rfl⟩ := List.mem_map.mp mem
    split
    · exact ⟨[], rfl⟩
    · exact ⟨unit ' ' :: line, rfl⟩
  rw [lines_append, lines_comments d colons]
  exact dispatch_idle idle

theorem lines_event (d : Decoder) (event : Option JsString) :
    d.lines (event.map fun event => text "event: " ++ sanitizeSseField event).toList =
      { d with eventType := (event.map sanitizeSseField).getD d.eventType } := by
  cases event with
  | none => rfl
  | some event => exact @line_field d (text "event") (by decide) (by decide) (sanitizeSseField event)

theorem lines_id (d : Decoder) {id : Option JsString} (free : ∀ i, id = some i → 0 ∉ i) :
    d.lines (id.map fun id => text "id: " ++ sanitizeSseField id).toList =
      { d with lastEventIdBuffer := (id.map sanitizeSseField).getD d.lastEventIdBuffer } := by
  cases id with
  | none => rfl
  | some id =>
    have clean : 0 ∉ sanitizeSseField id := fun mem =>
      free id rfl (List.mem_of_mem_filter (List.mem_of_mem_filter mem))
    exact (@line_field d (text "id") (by decide) (by decide) _).trans (if_neg clean)

theorem lines_retry (d : Decoder) (retry : Option Retry) :
    ∃ time, d.lines (retryLines retry) = { d with reconnectionTime := time } := by
  have same : ∃ time, d.lines [] = { d with reconnectionTime := time } := ⟨d.reconnectionTime, rfl⟩
  cases retry with
  | none => exact same
  | some retry =>
    cases retry with
    | nan => exact same
    | infinite => exact same
    | finite q below =>
      rw [retryLines]
      split
      · have digits := digitsIn_all (by decide) (fun d less => digitChar_decimal less) q.floor.toNat
        exact ⟨_, (@line_field d (text "retry") (by decide) (by decide) _).trans (if_pos digits)⟩
      · exact same

theorem dispatch_data (d : Decoder) (data : JsString) (h : d.data = data ++ [lineFeed]) :
    d.dispatch =
      { d with
        data := [], eventType := [], lastEventId := d.lastEventIdBuffer
        events := d.events ++ [⟨if d.eventType = [] then text "message" else d.eventType, data, d.lastEventIdBuffer⟩] } := by
  rw [Decoder.dispatch, if_neg (by rw [h]; simp)]
  simp [h]

theorem lines_message {d : Decoder} (idle : Idle d) (sent : JsString) {options : SseSendOptions}
    (id : ∀ i, options.id = some i → 0 ∉ i) :
    ∃ time, d.lines (messageLines sent options ++ [[]]) =
      ⟨[], [], (options.id.map sanitizeSseField).getD d.lastEventId, (options.id.map sanitizeSseField).getD d.lastEventId, time,
        d.events ++ [⟨eventType options, normalizedLines sent, (options.id.map sanitizeSseField).getD d.lastEventId⟩]⟩ := by
  have type : (if (options.event.map sanitizeSseField).getD [] = [] then text "message"
      else (options.event.map sanitizeSseField).getD []) = eventType options := by
    rw [eventType]
    cases options.event <;> rfl
  have data : (splitSseLines sent).flatMap (· ++ [lineFeed]) = normalizedLines sent ++ [lineFeed] := by
    have joined : join lineFeed (splitSseLines sent) = normalizedLines sent := join_splitOn _
    rw [← join_lineFeed (splitSseLines_ne_nil sent), joined]
  rw [messageLines, lines_append, lines_append, lines_append, lines_append, lines_event, lines_id _ id]
  obtain ⟨time, waited⟩ := lines_retry _ options.retry
  refine ⟨time, ?_⟩
  rw [waited]
  refine (congrArg (Decoder.lines · [[]]) (lines_data _ (splitSseLines sent))).trans ?_
  refine (dispatch_data _ (normalizedLines sent) (by rw [idle.data, data]; rfl)).trans ?_
  simp only [idle.eventType, type, ← idle.dispatched]

/-! ## Streams -/

theorem commentLines_unbroken (comment : JsString) :
    commentLines comment ≠ [] ∧ ∀ s ∈ commentLines comment, Unbroken s := by
  refine ⟨by simp [commentLines, splitSseLines_ne_nil], fun s mem => ?_⟩
  obtain ⟨line, inside, rfl⟩ := List.mem_map.mp mem
  split
  · decide
  · exact Unbroken.append (by decide) (unbroken_line inside)

theorem retryLines_unbroken {retry : Option Retry} {s : JsString} (mem : s ∈ retryLines retry) : Unbroken s := by
  cases retry with
  | none => cases mem
  | some delay =>
    cases delay with
    | nan => cases mem
    | infinite => cases mem
    | finite q below =>
      rw [retryLines] at mem
      split at mem
      · rw [List.mem_singleton.mp mem]
        refine Unbroken.append (by decide) fun u inside => ?_
        have digit := List.all_eq_true.mp (digitsIn_all (by decide) (fun d less => digitChar_decimal less) _) u inside
        constructor
        · rintro rfl
          exact absurd digit (by decide)
        · rintro rfl
          exact absurd digit (by decide)
      · cases mem

theorem messageLines_unbroken (sent : JsString) (options : SseSendOptions) :
    messageLines sent options ≠ [] ∧ ∀ s ∈ messageLines sent options, Unbroken s := by
  refine ⟨by simp [messageLines, splitSseLines_ne_nil], fun s mem => ?_⟩
  rcases List.mem_append.mp mem with mem | inData
  · rcases List.mem_append.mp mem with mem | inRetry
    · rcases List.mem_append.mp mem with inEvent | inId
      · obtain ⟨event, -, rfl⟩ := Option.map_eq_some_iff.mp (Option.mem_toList.mp inEvent)
        exact Unbroken.append (by decide) (unbroken_sanitized event)
      · obtain ⟨id, -, rfl⟩ := Option.map_eq_some_iff.mp (Option.mem_toList.mp inId)
        exact Unbroken.append (by decide) (unbroken_sanitized id)
    · exact retryLines_unbroken inRetry
  · obtain ⟨line, inside, rfl⟩ := List.mem_map.mp inData
    exact Unbroken.append (by decide) (unbroken_line inside)

/-- From between frames on, each message adds its event and a comment none. -/
theorem lines_calls {calls : List SseCall} {d : Decoder} (idle : Idle d) {frames : List JsString}
    (encoded : calls.mapM SseCall.encode = some frames)
    (ids : ∀ data options i, .message data options ∈ calls → options.id = some i → 0 ∉ i) :
    (d.lines (linesFrom [] frames.flatten)).events = d.events ++ sentEvents d.lastEventId calls := by
  induction calls generalizing d frames with
  | nil =>
    cases encoded
    exact (List.append_nil _).symm
  | cons call calls ih =>
    rw [List.mapM_cons] at encoded
    obtain ⟨out, encode, encoded⟩ := Option.bind_eq_some_iff.mp encoded
    obtain ⟨rest, encodedRest, eq⟩ := Option.bind_eq_some_iff.mp encoded
    obtain rfl := Option.some.inj eq
    have idsRest : ∀ data options i, .message data options ∈ calls → options.id = some i → 0 ∉ i :=
      fun data options i mem => ids data options i (List.mem_cons_of_mem _ mem)
    have next (lines : List JsString) (tail : List JsString) : d.lines (lines ++ [] :: tail) = (d.lines (lines ++ [[]])).lines tail := by
      rw [← lines_append, List.append_assoc]
      rfl
    rw [List.flatten_cons]
    cases call with
    | comment said =>
      obtain rfl := Option.some.inj encode
      have lines := commentLines_unbroken said
      rw [encodeSseComment, linesFrom_frame lines.1 lines.2, next, lines_comment idle, ih idle encodedRest idsRest]
      rfl
    | message data options =>
      obtain ⟨sent, serialized, rfl⟩ := Option.map_eq_some_iff.mp encode
      have lines := messageLines_unbroken sent options
      obtain ⟨time, read⟩ := lines_message idle sent fun i => ids data options i List.mem_cons_self
      rw [linesFrom_frame lines.1 lines.2, next, read, ih ⟨rfl, rfl, rfl⟩ encodedRest idsRest, sentEvents, serialized,
        List.append_assoc]
      rfl

/-- A client reads one event for each message and none for a comment, with the data
up to line ends and the type and last id that were sent. -/
theorem decode_encoded {calls : List SseCall} {frames : List JsString} (encoded : calls.mapM SseCall.encode = some frames)
    (ids : ∀ data options i, .message data options ∈ calls → options.id = some i → 0 ∉ i) :
    decode frames.flatten = sentEvents [] calls := lines_calls ⟨rfl, rfl, rfl⟩ encoded ids

def exampleCalls : List SseCall :=
  [.message (.string (text "a\r\nid: 9\r b")) ⟨some (text "tick\n"), some (text "7"), some (.finite 1500 (by norm_num))⟩,
    .comment (text "\ndata: no"), .message (.value (some (text "[1]"))) ⟨none, none, some .nan⟩]

theorem example_decoded :
    ∃ frames, exampleCalls.mapM SseCall.encode = some frames ∧
      decode frames.flatten =
        [⟨text "tick", text "a\nid: 9\n b", text "7"⟩, ⟨text "message", text "[1]", text "7"⟩] := by
  refine ⟨_, rfl, @decode_encoded exampleCalls _ rfl fun data options i mem id => ?_⟩
  rcases List.mem_cons.mp mem with same | mem
  · cases same
    cases id
    decide
  · rcases List.mem_cons.mp mem with same | mem
    · cases same
    · cases List.mem_singleton.mp mem
      cases id

/-- An event without a name is read as a message. -/
theorem nameless_event_message :
    ∃ frame, encodeSseMessage (.string (text "x")) ⟨some [], none, none⟩ = some frame ∧
      decode frame ≠ [⟨sanitizeSseField [], text "x", []⟩] := ⟨_, rfl, by decide⟩

end Fluo.Http
