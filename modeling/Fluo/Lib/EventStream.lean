import Fluo.Lib.JsString

/-!
# Event streams

The `text/event-stream` grammar of the HTML Standard: lines end with a carriage
return, a line feed or both, a line names a field, and a blank line dispatches what
the fields before it collected. What follows the last line end is discarded.
-/

namespace Fluo.EventStream

open Js

def lineFeed : UInt16 := unit '\n'

def carriageReturn : UInt16 := unit '\r'

/-- The lines of a stream, where `line` has begun. -/
def linesFrom (line : JsString) : JsString → List JsString
  | [] => []
  | [u] => if u = lineFeed ∨ u = carriageReturn then [line] else []
  | u :: v :: rest =>
    if u = carriageReturn ∧ v = lineFeed then line :: linesFrom [] rest
    else if u = lineFeed ∨ u = carriageReturn then line :: linesFrom [] (v :: rest)
    else linesFrom (line ++ [u]) (v :: rest)

structure Event where
  type : JsString
  data : JsString
  lastEventId : JsString
  deriving DecidableEq, Repr

structure Decoder where
  data : JsString
  eventType : JsString
  lastEventIdBuffer : JsString
  lastEventId : JsString
  reconnectionTime : Option JsString
  events : List Event
  deriving DecidableEq, Repr

def Decoder.start : Decoder := ⟨[], [], [], [], none, []⟩

def Decoder.dispatch (d : Decoder) : Decoder :=
  let d := { d with lastEventId := d.lastEventIdBuffer }
  if d.data = [] then { d with eventType := [] }
  else
    let data := if d.data.getLast? = some lineFeed then d.data.dropLast else d.data
    let type := if d.eventType = [] then text "message" else d.eventType
    { d with data := [], eventType := [], events := d.events ++ [⟨type, data, d.lastEventId⟩] }

def Decoder.field (d : Decoder) (name value : JsString) : Decoder :=
  if name = text "event" then { d with eventType := value }
  else if name = text "data" then { d with data := d.data ++ value ++ [lineFeed] }
  else if name = text "id" then if 0 ∈ value then d else { d with lastEventIdBuffer := value }
  else if name = text "retry" then
    if value.all fun u => unit '0' ≤ u && u ≤ unit '9' then { d with reconnectionTime := some value } else d
  else d

/-- One space after the colon is no part of the value. -/
def fieldValue (s : JsString) : JsString := if s.head? = some (unit ' ') then s.drop 1 else s

def Decoder.line (d : Decoder) (line : JsString) : Decoder :=
  if line = [] then d.dispatch
  else
    match indexOf [unit ':'] line with
    | some 0 => d
    | some i => d.field (line.take i) (fieldValue (line.drop (i + 1)))
    | none => d.field line []

def Decoder.lines (d : Decoder) (lines : List JsString) : Decoder := lines.foldl Decoder.line d

def decode (stream : JsString) : List Event := (Decoder.start.lines (linesFrom [] stream)).events

/-! ## Lines -/

def Unbroken (s : JsString) : Prop := ∀ u ∈ s, u ≠ lineFeed ∧ u ≠ carriageReturn

instance (s : JsString) : Decidable (Unbroken s) :=
  List.decidableBAll (fun u => u ≠ lineFeed ∧ u ≠ carriageReturn) s

theorem Unbroken.append {s t : JsString} (hs : Unbroken s) (ht : Unbroken t) : Unbroken (s ++ t) := fun u mem =>
  (List.mem_append.mp mem).elim (hs u) (ht u)

theorem linesFrom_lineFeed (line rest : JsString) : linesFrom line (lineFeed :: rest) = line :: linesFrom [] rest := by
  cases rest with
  | nil => rfl
  | cons v rest =>
    have first : ¬ (lineFeed = carriageReturn ∧ v = lineFeed) := fun h => absurd h.1 (by decide)
    rw [linesFrom, if_neg first, if_pos (.inl rfl)]

/-- A text without line ends is read to the end of its line. -/
theorem linesFrom_append {s : JsString} (unbroken : Unbroken s) (line rest : JsString) :
    linesFrom line (s ++ lineFeed :: rest) = (line ++ s) :: linesFrom [] rest := by
  induction s generalizing line with
  | nil => rw [List.nil_append, linesFrom_lineFeed, List.append_nil]
  | cons u s ih =>
    obtain ⟨notFeed, notReturn⟩ := unbroken u List.mem_cons_self
    have more := ih (fun v mem => unbroken v (List.mem_cons_of_mem _ mem)) (line ++ [u])
    have whole : line ++ [u] ++ s = line ++ u :: s := by simp
    rw [whole] at more
    rw [← more]
    cases tail : s ++ lineFeed :: rest with
    | nil => exact absurd tail (List.append_ne_nil_of_right_ne_nil _ (List.cons_ne_nil _ _))
    | cons v tail' =>
      rw [List.cons_append, tail, linesFrom, if_neg fun h => notReturn h.1, if_neg (not_or.mpr ⟨notFeed, notReturn⟩)]

theorem linesFrom_flatMap {l : List JsString} (unbroken : ∀ s ∈ l, Unbroken s) (rest : JsString) :
    linesFrom [] (l.flatMap (· ++ [lineFeed]) ++ rest) = l ++ linesFrom [] rest := by
  induction l with
  | nil => rfl
  | cons s l ih =>
    rw [List.flatMap_cons, List.append_assoc, List.append_assoc, List.singleton_append,
      linesFrom_append (unbroken s List.mem_cons_self), ih fun t mem => unbroken t (List.mem_cons_of_mem _ mem)]
    rfl

/-! ## Fields -/

theorem lines_append (d : Decoder) (l m : List JsString) : d.lines (l ++ m) = (d.lines l).lines m := List.foldl_append

/-- A field line, with one space after the colon. -/
def fieldLine (name value : JsString) : JsString := name ++ text ": " ++ value

theorem line_field (d : Decoder) {name : JsString} (some_ : name ≠ []) (free : unit ':' ∉ name) (value : JsString) :
    d.line (fieldLine name value) = d.field name value := by
  have other : ∀ u ∈ name, decide (u ≠ unit ':') = true := fun u mem => decide_eq_true fun same => free (same ▸ mem)
  have whole : fieldLine name value = name ++ unit ':' :: unit ' ' :: value := by
    rw [fieldLine, List.append_assoc]
    rfl
  have found : indexOf [unit ':'] (fieldLine name value) = some name.length := by
    rw [whole, indexOf_unit, if_pos (List.mem_append_right _ List.mem_cons_self), List.takeWhile_append_of_pos other,
      List.takeWhile_cons_of_neg (by simp), List.append_nil]
  have positive : name.length ≠ 0 := fun zero => some_ (List.length_eq_zero_iff.mp zero)
  rw [Decoder.line, if_neg (by rw [whole]; simp)]
  rw [found]
  obtain ⟨n, length⟩ : ∃ n, name.length = n + 1 := Nat.exists_eq_succ_of_ne_zero positive
  rw [length]
  show d.field ((fieldLine name value).take (n + 1)) (fieldValue ((fieldLine name value).drop (n + 1 + 1))) = _
  rw [← length, whole, List.take_left' rfl, ← List.drop_drop, List.drop_left' rfl]
  rfl

theorem line_comment (d : Decoder) (s : JsString) : d.line (unit ':' :: s) = d := by
  have found : indexOf [unit ':'] (unit ':' :: s) = some 0 := by
    rw [indexOf_unit, if_pos List.mem_cons_self, List.takeWhile_cons_of_neg (by simp)]
    rfl
  rw [Decoder.line, if_neg (List.cons_ne_nil _ _), found]
  rfl

theorem lines_comments (d : Decoder) {l : List JsString} (h : ∀ s ∈ l, ∃ rest, s = unit ':' :: rest) : d.lines l = d := by
  induction l generalizing d with
  | nil => rfl
  | cons s l ih =>
    obtain ⟨rest, rfl⟩ := h s List.mem_cons_self
    rw [Decoder.lines, List.foldl_cons, line_comment]
    exact ih d fun t mem => h t (List.mem_cons_of_mem _ mem)

theorem lines_data (d : Decoder) (l : List JsString) :
    d.lines (l.map (fieldLine (text "data"))) = { d with data := d.data ++ l.flatMap (· ++ [lineFeed]) } := by
  induction l generalizing d with
  | nil => simp [Decoder.lines]
  | cons s l ih =>
    have first : d.line (fieldLine (text "data") s) = { d with data := d.data ++ s ++ [lineFeed] } :=
      line_field d (by decide) (by decide) s
    rw [List.map_cons, Decoder.lines, List.foldl_cons, first]
    refine (ih _).trans ?_
    simp [List.append_assoc]

end Fluo.EventStream
