import Fluo.Http.ConditionalPolicy

/-!
# Revalidation

The validators that a response carries are read back by the requests that echo them.
-/

namespace Fluo.Http

open Fluo.Js Fluo.Code

/-! ## Entity tags -/

/-- The white space that may stand around tags. -/
def Ows (s : JsString) : Prop := ∀ u ∈ s, isOptionalWhitespace u = true

theorem Ows.blank {s : JsString} (ows : Ows s) : Blank s := by
  intro u mem
  have cases := ows u mem
  simp only [isOptionalWhitespace, Bool.or_eq_true, decide_eq_true_eq] at cases
  rcases cases with rfl | rfl <;> decide

theorem ows_nil : Ows [] := fun _ mem => nomatch mem

theorem ows_space : Ows (text " ") := List.all_eq_true.mp (show (text " ").all isOptionalWhitespace = true by decide)

theorem skip_ows {a : JsString} (ows : Ows a) (s : JsString) :
    skipOptionalWhitespace (a ++ s) = skipOptionalWhitespace s := by
  rw [skipOptionalWhitespace, List.dropWhile_append_of_pos ows, skipOptionalWhitespace]

theorem quote_not_tag_character {s : JsString} (valid : s.all isEntityTagCharacter = true) : ∀ u ∈ s, (u ≠ quote) := by
  rintro u mem rfl
  exact absurd (List.all_eq_true.mp valid _ mem) (by decide)

/-- A tag starts with a character that is neither white space nor a star. -/
theorem formatEntityTag_start (tag : EntityTag) :
    ∃ u rest, formatEntityTag tag = u :: rest ∧ isOptionalWhitespace u = false ∧ isWhiteSpace u = false ∧ u ≠ unit '*' := by
  obtain ⟨opaqueValue, strength⟩ := tag
  cases strength with
  | strong => exact ⟨quote, _, rfl, by decide, by decide, by decide⟩
  | weak => exact ⟨unit 'W', _, rfl, by decide, by decide, by decide⟩

theorem skip_format (tag : EntityTag) (s : JsString) :
    skipOptionalWhitespace (formatEntityTag tag ++ s) = formatEntityTag tag ++ s := by
  obtain ⟨u, rest, start, mark, -⟩ := formatEntityTag_start tag
  rw [start, List.cons_append, skipOptionalWhitespace, List.dropWhile_cons_of_neg (by rw [mark]; exact Bool.false_ne_true)]

theorem parseEntityTag_format {tag : EntityTag} (valid : isValidEntityTag tag = true) (s : JsString) :
    parseEntityTag (formatEntityTag tag ++ s) = some (tag, s) := by
  obtain ⟨opaqueValue, strength⟩ := tag
  rw [isValidEntityTag] at valid
  have inside : ∀ u ∈ opaqueValue, decide (u ≠ quote) = true := fun u mem =>
    decide_eq_true (quote_not_tag_character valid u mem)
  have taken : (opaqueValue ++ quote :: s).takeWhile (· ≠ quote) = opaqueValue := by
    rw [List.takeWhile_append_of_pos inside, List.takeWhile_cons_of_neg (by simp), List.append_nil]
  have dropped : (opaqueValue ++ quote :: s).dropWhile (· ≠ quote) = quote :: s := by
    rw [List.dropWhile_append_of_pos inside, List.dropWhile_cons_of_neg (by simp)]
  cases strength with
  | strong =>
    have shape : formatEntityTag ⟨opaqueValue, .strong⟩ ++ s = quote :: (opaqueValue ++ quote :: s) := by
      simp [formatEntityTag]
    have plain : (text "W/").isPrefixOf (quote :: (opaqueValue ++ quote :: s)) = false := rfl
    rw [shape, parseEntityTag, plain]
    simp only [Bool.false_eq_true, if_false, if_true, dropped, taken, valid]
  | weak =>
    have shape : formatEntityTag ⟨opaqueValue, .weak⟩ ++ s = text "W/" ++ quote :: (opaqueValue ++ quote :: s) := by
      simp [formatEntityTag]
    have marked : (text "W/").isPrefixOf (text "W/" ++ quote :: (opaqueValue ++ quote :: s)) = true := by
      rw [List.isPrefixOf_iff_prefix]
      exact List.prefix_append _ _
    have behind : (text "W/" ++ quote :: (opaqueValue ++ quote :: s)).drop 2 = quote :: (opaqueValue ++ quote :: s) := rfl
    rw [shape, parseEntityTag, marked]
    simp only [if_true, behind, dropped, taken, valid]

theorem formatEntityTag_injective {tag tag' : EntityTag} (valid : isValidEntityTag tag = true)
    (valid' : isValidEntityTag tag' = true) (same : formatEntityTag tag = formatEntityTag tag') : tag = tag' := by
  have parsed := parseEntityTag_format valid []
  rw [same, parseEntityTag_format valid' []] at parsed
  cases parsed
  rfl

/-! ## Lists of tags -/

/-- A tag behind a comma, with the white space around the comma. -/
structure NextTag where
  left : JsString
  right : JsString
  tag : EntityTag

def NextTag.text (next : NextTag) : JsString := next.left ++ comma :: (next.right ++ formatEntityTag next.tag)

structure NextTag.Valid (next : NextTag) : Prop where
  left : Ows next.left
  right : Ows next.right
  tag : isValidEntityTag next.tag = true

/-- A list of tags without white space around it. -/
def tagListText (first : EntityTag) (more : List NextTag) : JsString := formatEntityTag first ++ more.flatMap NextTag.text

theorem comma_not_ows : isOptionalWhitespace comma = false := by decide

theorem skip_next {next : NextTag} (valid : next.Valid) (s : JsString) :
    skipOptionalWhitespace (next.text ++ s) = comma :: (next.right ++ (formatEntityTag next.tag ++ s)) := by
  rw [NextTag.text, List.append_assoc, skip_ows valid.left, List.cons_append, skipOptionalWhitespace,
    List.dropWhile_cons_of_neg (by rw [comma_not_ows]; exact Bool.false_ne_true), List.append_assoc]

theorem parseEntityTags_last {value rest : JsString} {tag : EntityTag} (parsed : parseEntityTag value = some (tag, rest))
    (behind : skipOptionalWhitespace rest = []) : parseEntityTags value = some [tag] := by
  rw [parseEntityTags]
  split
  · next nothing => rw [parsed] at nothing; cases nothing
  · next tag' rest' parsed' =>
    rw [parsed] at parsed'
    cases parsed'
    split
    · rfl
    · next more => rw [behind] at more; cases more

theorem parseEntityTags_next {value rest rest' : JsString} {tag : EntityTag}
    (parsed : parseEntityTag value = some (tag, rest)) (behind : skipOptionalWhitespace rest = comma :: rest')
    (more : skipOptionalWhitespace rest' ≠ []) :
    parseEntityTags value = (parseEntityTags (skipOptionalWhitespace rest')).map (tag :: ·) := by
  rw [parseEntityTags]
  split
  · next nothing => rw [parsed] at nothing; cases nothing
  · next parsed' =>
    rw [parsed] at parsed'
    cases parsed'
    split
    · next last => rw [behind] at last; cases last
    · next behind' =>
      rw [behind] at behind'
      cases behind'
      rw [if_pos rfl, if_neg more]

theorem parseEntityTags_list {first : EntityTag} {more : List NextTag} (valid : isValidEntityTag first = true)
    (valids : ∀ next ∈ more, next.Valid) : parseEntityTags (tagListText first more) = some (first :: more.map (·.tag)) := by
  induction more generalizing first with
  | nil => exact parseEntityTags_last (parseEntityTag_format valid []) rfl
  | cons next more ih =>
    have here := valids next List.mem_cons_self
    have behind : skipOptionalWhitespace (next.right ++ (formatEntityTag next.tag ++ more.flatMap NextTag.text)) =
        tagListText next.tag more := by
      rw [skip_ows here.right, skip_format, tagListText]
    have nonempty : tagListText next.tag more ≠ [] := by
      obtain ⟨u, rest, start, -⟩ := formatEntityTag_start next.tag
      rw [tagListText, start]
      exact List.cons_ne_nil _ _
    rw [tagListText, List.flatMap_cons, parseEntityTags_next (parseEntityTag_format valid _) (skip_next here _)
      (by rw [behind]; exact nonempty), behind, ih here.tag fun other mem => valids other (List.mem_cons_of_mem next mem)]
    rfl

theorem parseEntityTagList_list {first : EntityTag} {more : List NextTag} (valid : isValidEntityTag first = true)
    (valids : ∀ next ∈ more, next.Valid) :
    parseEntityTagList (tagListText first more) = .tags (first :: more.map (·.tag)) := by
  have parsed := parseEntityTags_list valid valids
  obtain ⟨u, rest, start, -, -, notStar⟩ := formatEntityTag_start first
  have shape : tagListText first more = u :: (rest ++ more.flatMap NextTag.text) := by
    rw [tagListText, start, List.cons_append]
  have skip : skipOptionalWhitespace (tagListText first more) = tagListText first more := skip_format _ _
  rw [shape] at skip parsed
  rw [shape, parseEntityTagList, skip]
  simp only [notStar, if_false, parsed]

theorem tagListText_end (first : EntityTag) (more : List NextTag) : ∃ front, tagListText first more = front ++ [quote] := by
  have format_end (tag : EntityTag) : ∃ front, formatEntityTag tag = front ++ [quote] :=
    ⟨_, by rw [formatEntityTag, ← List.cons_append, ← List.append_assoc]⟩
  rcases List.eq_nil_or_concat more with rfl | ⟨before, last, rfl⟩
  · obtain ⟨front, ends⟩ := format_end first
    exact ⟨front, by rw [tagListText, ends, List.flatMap_nil, List.append_nil]⟩
  · obtain ⟨front, ends⟩ := format_end last.tag
    refine ⟨formatEntityTag first ++ (before.flatMap NextTag.text ++ (last.left ++ comma :: (last.right ++ front))), ?_⟩
    simp [tagListText, List.concat_eq_append, NextTag.text, ends]

theorem trim_tagList (first : EntityTag) (more : List NextTag) : trim (tagListText first more) = tagListText first more := by
  obtain ⟨u, rest, start, -, mark, -⟩ := formatEntityTag_start first
  obtain ⟨front, ends⟩ := tagListText_end first more
  have starts : tagListText first more = u :: (rest ++ more.flatMap NextTag.text) := by
    rw [tagListText, start, List.cons_append]
  exact trim_eq_self starts mark ends (by decide)

/-- A text lists valid tags, with optional white space around each. -/
def ListsTags (value : JsString) (tags : List EntityTag) : Prop :=
  ∃ lead first more trail, Ows lead ∧ Ows trail ∧ isValidEntityTag first = true ∧ (∀ next ∈ more, next.Valid) ∧
    value = lead ++ tagListText first more ++ trail ∧ tags = first :: more.map (·.tag)

/-- The values of a field list valid tags. -/
inductive FieldLists : HeaderValue → List EntityTag → Prop
  | one {value : JsString} {tags : List EntityTag} (lists : ListsTags value tags) : FieldLists (.one value) tags
  | many {value : JsString} {values : List JsString} {tags : List EntityTag} {rest : List (List EntityTag)}
      (first : ListsTags value tags) (more : List.Forall₂ ListsTags values rest) :
      FieldLists (.many (value :: values)) (tags ++ rest.flatten)

theorem ListsTags.trimmed {value : JsString} {tags : List EntityTag} (lists : ListsTags value tags) :
    ∃ first more, isValidEntityTag first = true ∧ (∀ next ∈ more, next.Valid) ∧ trim value = tagListText first more ∧
      tags = first :: more.map (·.tag) := by
  obtain ⟨lead, first, more, trail, owsLead, owsTrail, valid, valids, rfl, rfl⟩ := lists
  refine ⟨first, more, valid, valids, ?_, rfl⟩
  rw [trim_append_right owsTrail.blank, trim_append_left owsLead.blank, trim_tagList]

theorem tagListText_ne_nil (first : EntityTag) (more : List NextTag) : tagListText first more ≠ [] := by
  obtain ⟨front, ends⟩ := tagListText_end first more
  rw [ends]
  exact List.append_ne_nil_of_right_ne_nil front (List.cons_ne_nil _ _)

theorem ListsTags.joined {value : JsString} {values : List JsString} {tags : List EntityTag} {rest : List (List EntityTag)}
    (lists : ListsTags value tags) (others : List.Forall₂ ListsTags values rest) :
    ∃ first more, isValidEntityTag first = true ∧ (∀ next ∈ more, next.Valid) ∧
      join comma ((value :: values).map trim) = tagListText first more ∧
      tags ++ rest.flatten = first :: more.map (·.tag) := by
  induction others generalizing value tags with
  | nil =>
    obtain ⟨first, more, valid, valids, trimmed, rfl⟩ := lists.trimmed
    exact ⟨first, more, valid, valids, trimmed, List.append_nil _⟩
  | cons other _ ih =>
    obtain ⟨first, more, valid, valids, trimmed, rfl⟩ := lists.trimmed
    obtain ⟨first', more', valid', valids', joined, tags'⟩ := ih other
    refine ⟨first, more ++ ⟨[], [], first'⟩ :: more', valid, fun next mem => ?_, ?_, ?_⟩
    · rcases List.mem_append.mp mem with before | after
      · exact valids next before
      · rcases List.mem_cons.mp after with rfl | behind
        · exact ⟨ows_nil, ows_nil, valid'⟩
        · exact valids' next behind
    · rw [List.map_cons, List.map_cons, join_cons_cons, ← List.map_cons, joined, trimmed]
      simp [tagListText, NextTag.text]
    · rw [List.flatten_cons, tags', List.map_append, List.cons_append]
      rfl

theorem FieldLists.read {value : HeaderValue} {tags : List EntityTag} (lists : FieldLists value tags) :
    ∃ first more, isValidEntityTag first = true ∧ (∀ next ∈ more, next.Valid) ∧
      readJoinedNonEmptyHeaderValue (some value) = some (tagListText first more) ∧ tags = first :: more.map (·.tag) := by
  cases lists with
  | one lists =>
    obtain ⟨first, more, valid, valids, trimmed, rfl⟩ := lists.trimmed
    refine ⟨first, more, valid, valids, ?_, rfl⟩
    rw [readJoinedNonEmptyHeaderValue, trimmed, nonEmpty, if_neg (tagListText_ne_nil first more)]
  | @many value values tags rest lists others =>
    obtain ⟨first, more, valid, valids, joined, tags'⟩ := lists.joined others
    refine ⟨first, more, valid, valids, ?_, tags'⟩
    have filled (s : JsString) (tags : List EntityTag) (lists : ListsTags s tags) : trim s ≠ [] := by
      obtain ⟨first, more, -, -, trimmed, -⟩ := lists.trimmed
      rw [trimmed]
      exact tagListText_ne_nil first more
    have all : ∀ s ∈ (value :: values).map trim, decide (s ≠ []) = true := by
      intro s mem
      obtain ⟨v, sent, rfl⟩ := List.mem_map.mp mem
      rcases List.mem_cons.mp sent with rfl | behind
      · exact decide_eq_true (filled v tags lists)
      · obtain ⟨i, bound, rfl⟩ := List.mem_iff_getElem.mp behind
        exact decide_eq_true (filled _ _ (others.get bound (others.length_eq ▸ bound)))
    rw [readJoinedNonEmptyHeaderValue, List.filter_eq_self.mpr all, ← joined]
    rfl

theorem FieldLists.parsed {value : HeaderValue} {tags : List EntityTag} (lists : FieldLists value tags) :
    ∃ s, readJoinedNonEmptyHeaderValue (some value) = some s ∧ parseEntityTagList s = .tags tags ∧
      ∀ tag ∈ tags, isValidEntityTag tag = true := by
  obtain ⟨first, more, valid, valids, read, rfl⟩ := lists.read
  refine ⟨_, read, parseEntityTagList_list valid valids, fun tag mem => ?_⟩
  rcases List.mem_cons.mp mem with rfl | behind
  · exact valid
  · obtain ⟨next, listed, rfl⟩ := List.mem_map.mp behind
    exact (valids next listed).tag

/-! ## Dates -/

theorem exactly_read (part : String) (s : JsString) : exactly part (text part ++ s) = some ([], s) := by
  rw [exactly, if_pos (List.isPrefixOf_iff_prefix.mpr (List.prefix_append _ _)), List.drop_left]

theorem digits_read {d : JsString} {n : Nat} (length : d.length = n) (all : d.all isDigit = true) (s : JsString) :
    digits n (d ++ s) = some ([d], s) := by
  subst length
  rw [digits, List.take_left, List.drop_left, if_pos ⟨rfl, all⟩]

theorem oneOf_read {names : List JsString} {n : Nat} (lengths : ∀ name ∈ names, name.length = n) {name : JsString}
    (mem : name ∈ names) (s : JsString) : oneOf names (name ++ s) = some ([name], s) := by
  have found : names.find? (·.isPrefixOf (name ++ s)) = some name := by
    cases first : names.find? (·.isPrefixOf (name ++ s)) with
    | none =>
      have misses := List.find?_eq_none.mp first name mem
      exact absurd (List.isPrefixOf_iff_prefix.mpr (List.prefix_append name s)) misses
    | some other =>
      have starts := List.isPrefixOf_iff_prefix.mp (List.find?_some (p := fun x => List.isPrefixOf x (name ++ s)) first)
      have length := (lengths other (List.mem_of_find?_eq_some first)).trans (lengths name mem).symm
      rw [List.prefix_iff_eq_take, length, List.take_left] at starts
      rw [starts]
  rw [oneOf, found, Option.map_some, List.drop_left]

theorem exec_read {reader : Reader} {value rest : JsString} {groups : List JsString}
    (read : reader value = some (groups, rest)) (readers : List Reader) :
    exec (reader :: readers) value = (exec readers rest).map (groups ++ ·) := by
  rw [exec, read]
  rfl

theorem digitUnit_digit {d : Nat} (h : d < 10) : isDigit (digitUnit d) = true ∧ digitValue (digitUnit d) = d := by
  have all : ∀ d < 10, isDigit (digitUnit d) = true ∧ digitValue (digitUnit d) = d := by decide
  exact all d h

theorem zeroPadded_digits (width n : Nat) : (zeroPadded width n).all isDigit = true := by
  rw [List.all_eq_true]
  intro u mem
  rcases List.mem_append.mp mem with zero | written
  · rw [(List.mem_replicate.mp zero).2]
    decide
  · obtain ⟨d, digit, rfl⟩ := List.mem_map.mp written
    exact (digitUnit_digit (Nat.digits_lt_base (by decide) (List.mem_reverse.mp digit))).1

theorem numberIn_zeroPadded (width n : Nat) : numberIn 10 (zeroPadded width n) = n := by
  have zeros (k : Nat) : (List.replicate k (unit '0')).foldl (fun m u => m * 10 + digitValue u) 0 = 0 := by
    induction k with
    | zero => rfl
    | succ k ih => exact ih
  have value (l : List Nat) (small : ∀ d ∈ l, d < 10) :
      (l.reverse.map digitUnit).foldl (fun m u => m * 10 + digitValue u) 0 = Nat.ofDigits 10 l := by
    induction l with
    | nil => rfl
    | cons d l ih =>
      rw [List.reverse_cons, List.map_append, List.foldl_append, ih fun e mem => small e (List.mem_cons_of_mem d mem),
        Nat.ofDigits_cons]
      show Nat.ofDigits 10 l * 10 + digitValue (digitUnit d) = _
      rw [(digitUnit_digit (small d List.mem_cons_self)).2, Nat.mul_comm, Nat.add_comm]
  rw [numberIn, zeroPadded, List.foldl_append, zeros, value _ fun d mem => Nat.digits_lt_base (by decide) mem,
    Nat.ofDigits_digits]

theorem parseDecimal_zeroPadded {width n : Nat} (positive : 0 < width) (h : n < 10 ^ width) :
    parseDecimal (zeroPadded width n) = some n := by
  have nonempty : zeroPadded width n ≠ [] := by
    rw [← List.length_pos_iff, zeroPadded_length h]
    exact positive
  have decimal : isDigits (zeroPadded width n) = true := by
    rw [isDigits, zeroPadded_digits, decide_eq_true nonempty]
    rfl
  rw [parseDecimal, if_pos decimal, numberIn_zeroPadded]

theorem httpWeekdays_get {i : Nat} (h : i < 7) : weekDayNames.getD i [] ∈ httpWeekdays ∧
    httpWeekdays[i]? = some (weekDayNames.getD i []) := by
  have all : ∀ i < 7, weekDayNames.getD i [] ∈ httpWeekdays ∧ httpWeekdays[i]? = some (weekDayNames.getD i []) := by
    decide
  exact all i h

theorem httpMonths_get {i : Nat} (h : i < 12) :
    monthNames.getD i [] ∈ httpMonths ∧ parseMonth (monthNames.getD i []) = some i := by
  have all : ∀ i < 12, monthNames.getD i [] ∈ httpMonths ∧ parseMonth (monthNames.getD i []) = some i := by decide
  exact all i h

/-- The groups of a date that `toUTCString` wrote. -/
theorem exec_toUTCString {time : Int} (start : 0 ≤ yearFromDay (dayFromTime time))
    (ends : yearFromDay (dayFromTime time) ≤ 9999) : exec imfFixdate (toUTCString time) =
      some [weekDayNames.getD (weekDay (dayFromTime time)) [], zeroPadded 2 (dateFromDay (dayFromTime time)),
        monthNames.getD (monthFromDay (dayFromTime time)) [], zeroPadded 4 (yearFromDay (dayFromTime time)).natAbs,
        zeroPadded 2 (hourFromTime time), zeroPadded 2 (minuteFromTime time), zeroPadded 2 (secondFromTime time)] := by
  have two {n : Nat} (h : n < 100) (s : JsString) : digits 2 (zeroPadded 2 n ++ s) = some ([zeroPadded 2 n], s) :=
    digits_read (zeroPadded_length h) (zeroPadded_digits 2 n) s
  have four {n : Nat} (h : n < 10000) (s : JsString) : digits 4 (zeroPadded 4 n ++ s) = some ([zeroPadded 4 n], s) :=
    digits_read (zeroPadded_length h) (zeroPadded_digits 4 n) s
  have weekday := oneOf_read (n := 3) (by decide) (httpWeekdays_get (weekDay_lt (dayFromTime time))).1
  have month := oneOf_read (n := 3) (by decide) (httpMonths_get (monthFromDay_lt (dayFromTime time))).1
  have date := dateFromDay_bounds (dayFromTime time)
  obtain ⟨hour, minute, second⟩ := clock_bounds time
  have year : (yearFromDay (dayFromTime time)).natAbs < 10000 := by omega
  have last : exactly " GMT" (text " GMT") = some ([], []) := exactly_read " GMT" []
  unfold toUTCString imfFixdate clockPattern
  dsimp only
  rw [if_neg (Int.not_lt.mpr start)]
  simp only [List.append_assoc, List.cons_append, List.nil_append]
  rw [exec_read (weekday _), exec_read (exactly_read ", " _), exec_read (two (by omega) _), exec_read (exactly_read " " _),
    exec_read (month _), exec_read (exactly_read " " _), exec_read (four year _), exec_read (exactly_read " " _),
    exec_read (two (by omega) _), exec_read (exactly_read ":" _), exec_read (two (by omega) _),
    exec_read (exactly_read ":" _), exec_read (two (by omega) _), exec_read last]
  rfl

/-- A date in whole seconds is read back from the text it is sent as. -/
theorem parseHttpDate_toUTCString (referenceYear : Int) {time : Int} (whole : time % 1000 = 0)
    (start : 0 ≤ yearFromDay (dayFromTime time)) (ends : yearFromDay (dayFromTime time) ≤ 9999) :
    parseHttpDate referenceYear (some (toUTCString time)) = some time := by
  have groups := exec_toUTCString start ends
  have date := dateFromDay_bounds (dayFromTime time)
  obtain ⟨hour, minute, second⟩ := clock_bounds time
  have clock : parseClock (zeroPadded 2 (hourFromTime time)) (zeroPadded 2 (minuteFromTime time))
      (zeroPadded 2 (secondFromTime time)) = some (hourFromTime time, minuteFromTime time, secondFromTime time) := by
    rw [parseClock, parseDecimal_zeroPadded Nat.two_pos (by omega), parseDecimal_zeroPadded Nat.two_pos (by omega),
      parseDecimal_zeroPadded Nat.two_pos (by omega)]
    exact if_neg (by omega)
  have year : ((yearFromDay (dayFromTime time)).natAbs : Int) = yearFromDay (dayFromTime time) := by omega
  obtain ⟨weekday, weekday'⟩ := httpWeekdays_get (weekDay_lt (dayFromTime time))
  have created : createHttpDateTimestamp (weekDayNames.getD (weekDay (dayFromTime time)) [])
      (zeroPadded 2 (dateFromDay (dayFromTime time))) (monthNames.getD (monthFromDay (dayFromTime time)) [])
      (zeroPadded 4 (yearFromDay (dayFromTime time)).natAbs) (zeroPadded 2 (hourFromTime time))
      (zeroPadded 2 (minuteFromTime time)) (zeroPadded 2 (secondFromTime time)) httpWeekdays = some time := by
    rw [createHttpDateTimestamp, parseDecimal_zeroPadded Nat.two_pos (by omega),
      (httpMonths_get (monthFromDay_lt (dayFromTime time))).2, parseDecimal_zeroPadded (by decide) (by omega), clock]
    dsimp only
    rw [if_neg (by simp only [weekday, not_true_eq_false, or_false]; omega), year, makeDay_fields, makeDate_fields whole]
    exact if_neg (by simp only [weekday', ne_eq, not_true_eq_false, or_self, not_false_eq_true])
  unfold parseHttpDate
  rw [← created]
  cases written : toUTCString time with
  | nil =>
    rw [written] at groups
    cases groups
  | cons u rest =>
    rw [written] at groups
    simp only [groups]

/-! ## Fields of a request -/

section

variable (host : CaseMapping)

/-- The first field of a name that is not blank has a value. -/
def Sends (request : FrameworkRequest) (name : JsString) (value : HeaderValue) : Prop :=
  ∃ key, request.headers.find? (fun entry => some (host.toLowerCase entry.1) = normalizeHeaderName host name &&
    (readJoinedNonEmptyHeaderValue entry.2).isSome) = some (key, some value)

theorem Sends.read {request : FrameworkRequest} {name : JsString} {value : HeaderValue} {s : JsString}
    (sends : Sends host request name value) (joined : readJoinedNonEmptyHeaderValue (some value) = some s) :
    readFirstNonEmptyRequestHeaderValue host request name = some s := by
  obtain ⟨key, found⟩ := sends
  rw [readFirstNonEmptyRequestHeaderValue]
  cases normal : normalizeHeaderName host name with
  | none =>
    have named := List.find?_some found
    rw [normal] at named
    cases named
  | some normalized =>
    dsimp only
    rw [normal] at found
    generalize request.headers = headers at found ⊢
    induction headers with
    | nil => cases found
    | cons entry rest ih =>
      rw [List.findSome?_cons]
      rw [List.find?_cons] at found
      split at found
      · next here =>
        cases found
        rw [if_pos (by simpa using (Bool.and_eq_true_iff.mp here).1), joined]
      · next other =>
        split
        · next s' found' =>
          rw [Option.ite_none_right_eq_some] at found'
          rw [found'.1, found'.2] at other
          simp at other
        · exact ih found

/-- A list in a field of a request has an emitted tag. -/
def EchoesTag (request : FrameworkRequest) (name emitted : JsString) : Prop :=
  ∃ value tags, Sends host request name value ∧ FieldLists value tags ∧ emitted ∈ tags.map formatEntityTag

/-- A field of a request has the emitted date. -/
def EchoesDate (request : FrameworkRequest) (name : JsString) (validators : ResponseValidators) : Prop :=
  ∃ emitted, (text "Last-Modified", emitted) ∈ applyResponseValidators (some validators) ∧
    Sends host request name (.one emitted)

/-- The preconditions of a request, where it has any, echo what was emitted. -/
structure PreconditionsHold (request : FrameworkRequest) (validators : ResponseValidators) : Prop where
  ifMatch : readFirstNonEmptyRequestHeaderValue host request (text "if-match") = none ∨
    ∃ etag, validators.etag = some etag ∧ etag.strength = .strong ∧ isValidEntityTag etag = true ∧
      EchoesTag host request (text "if-match") (formatEntityTag etag)
  ifUnmodifiedSince : readFirstNonEmptyRequestHeaderValue host request (text "if-unmodified-since") = none ∨
    EchoesDate host request (text "if-unmodified-since") validators

/-- The year of a date in UTC has no more than four digits. -/
def FourDigitYear (validators : ResponseValidators) : Prop :=
  ∀ time, validators.lastModified = some (some time) →
    0 ≤ yearFromDay (dayFromTime time) ∧ yearFromDay (dayFromTime time) ≤ 9999

end

theorem emitted_etag {validators : ResponseValidators} {emitted : JsString}
    (h : (text "ETag", emitted) ∈ applyResponseValidators (some validators)) :
    ∃ etag, validators.etag = some etag ∧ isValidEntityTag etag = true ∧ emitted = formatEntityTag etag := by
  rcases List.mem_append.mp h with tag | date
  · rw [Option.bind_some] at tag
    split at tag
    · next etag known =>
      split at tag
      · next valid =>
        exact ⟨etag, known, valid, congrArg Prod.snd (List.mem_singleton.mp tag)⟩
      · cases tag
    · cases tag
  · split at date
    · have same : text "ETag" = text "Last-Modified" := congrArg Prod.fst (List.mem_singleton.mp date)
      exact absurd same (by decide)
    · cases date

theorem emitted_date {validators : ResponseValidators} {emitted : JsString}
    (h : (text "Last-Modified", emitted) ∈ applyResponseValidators (some validators)) :
    ∃ time, validators.lastModified = some (some time) ∧ emitted = toUTCString (time / 1000 * 1000) := by
  rcases List.mem_append.mp h with tag | date
  · split at tag
    · split at tag
      · have same : text "Last-Modified" = text "ETag" := congrArg Prod.fst (List.mem_singleton.mp tag)
        exact absurd same (by decide)
      · cases tag
    · cases tag
  · split at date
    · next lastModified known =>
      obtain ⟨time, dated, rfl⟩ := Option.map_eq_some_iff.mp known
      exact ⟨time, Option.join_eq_some_iff.mp dated, congrArg Prod.snd (List.mem_singleton.mp date)⟩
    · cases date

theorem trim_toUTCString (time : Int) : trim (toUTCString time) = toUTCString time := by
  have all : ∀ i < 7, (weekDayNames.getD i []).head?.any (fun u => !isWhiteSpace u) = true := by decide
  have start := all (weekDay (dayFromTime time)) (weekDay_lt _)
  have zone : text " GMT" = text " GM" ++ [unit 'T'] := by decide
  obtain ⟨front, ends⟩ : ∃ front, toUTCString time = front ++ [unit 'T'] := by
    rw [toUTCString, zone, ← List.append_assoc]
    exact ⟨_, rfl⟩
  cases name : weekDayNames.getD (weekDay (dayFromTime time)) [] with
  | nil =>
    rw [name] at start
    cases start
  | cons u rest =>
    rw [name] at start
    have mark : isWhiteSpace u = false := by simpa using start
    obtain ⟨behind, starts⟩ : ∃ behind, toUTCString time = u :: behind := by
      rw [toUTCString, name]
      simp only [List.cons_append]
      exact ⟨_, rfl⟩
    exact trim_eq_self starts mark ends (by decide)

section

variable {host : CaseMapping}

theorem EchoesTag.parsed {request : FrameworkRequest} {name : JsString} {etag : EntityTag}
    (valid : isValidEntityTag etag = true) (echoes : EchoesTag host request name (formatEntityTag etag)) :
    ∃ tags, parseEntityTagList ((readFirstNonEmptyRequestHeaderValue host request name).getD []) = .tags tags ∧
      etag ∈ tags := by
  obtain ⟨value, tags, sends, lists, mem⟩ := echoes
  obtain ⟨s, joined, parsed, valids⟩ := lists.parsed
  obtain ⟨tag, mem, same⟩ := List.mem_map.mp mem
  rw [sends.read host joined]
  exact ⟨tags, parsed, formatEntityTag_injective (valids tag mem) valid same ▸ mem⟩

theorem EchoesDate.parsed {request : FrameworkRequest} {name : JsString} {validators : ResponseValidators}
    (dated : FourDigitYear validators) (echoes : EchoesDate host request name validators) (referenceYear : Int) :
    ∃ time, normalizeLastModified validators.lastModified = some time ∧
      parseHttpDate referenceYear (readFirstNonEmptyRequestHeaderValue host request name) = some time := by
  obtain ⟨emitted, written, sends⟩ := echoes
  obtain ⟨time, known, utc⟩ := emitted_date written
  rw [utc] at sends
  have day : dayFromTime (time / 1000 * 1000) = dayFromTime time := by
    unfold dayFromTime
    omega
  have year := dated time known
  rw [← day] at year
  have joined : readJoinedNonEmptyHeaderValue (some (.one (toUTCString (time / 1000 * 1000)))) =
      some (toUTCString (time / 1000 * 1000)) := by
    rw [readJoinedNonEmptyHeaderValue, trim_toUTCString, nonEmpty, if_neg]
    intro empty
    have groups := exec_toUTCString year.1 year.2
    rw [empty] at groups
    cases groups
  refine ⟨time / 1000 * 1000, by rw [known]; rfl, ?_⟩
  rw [sends.read host joined, parseHttpDate_toUTCString referenceYear (Int.mul_emod_left _ _) year.1 year.2]

theorem matchesEntityTag_mem {etag : EntityTag} {tags : List EntityTag} {comparison : EntityTagStrength}
    (valid : isValidEntityTag etag = true) (mem : etag ∈ tags) (strong : comparison = .strong → etag.strength = .strong) :
    matchesEntityTag (.tags tags) (some etag) comparison true = true := by
  rw [matchesEntityTag, Option.any_some, valid, Bool.true_and, List.any_eq_true]
  refine ⟨etag, mem, ?_⟩
  cases comparison with
  | weak => simp
  | strong => simp [strong rfl]

theorem matchesEntityTag_strong {current : Option EntityTag} {tags : List EntityTag}
    (h : matchesEntityTag (.tags tags) current .strong true = true) :
    ∃ etag ∈ tags, current = some etag ∧ etag.strength = .strong := by
  obtain ⟨⟨opaqueValue, strength⟩, rfl, matched⟩ := (Option.any_eq_true _ _).mp h
  obtain ⟨⟨opaqueValue', strength'⟩, mem, same⟩ := List.any_eq_true.mp (Bool.and_eq_true_iff.mp matched).2
  simp only [Bool.and_eq_true, Bool.or_eq_true, decide_eq_true_eq, reduceCtorEq, false_or] at same
  obtain ⟨rfl, rfl, rfl⟩ := same
  exact ⟨_, mem, rfl, rfl⟩

theorem preconditionFails_hold {request : FrameworkRequest} {validators : ResponseValidators}
    (dated : FourDigitYear validators) (hold : PreconditionsHold host request validators) (referenceYear : Int) :
    preconditionFails host referenceYear request (some validators) true = false := by
  rcases hold.ifMatch with absent | ⟨etag, known, strong, valid, echoes⟩
  · rw [preconditionFails, absent]
    rcases hold.ifUnmodifiedSince with absent | echoes
    · rw [absent]
      rfl
    · obtain ⟨time, known, parsed⟩ := echoes.parsed dated referenceYear
      rw [parsed, Option.bind_some, known]
      exact decide_eq_false (Int.lt_irrefl time)
  · obtain ⟨tags, parsed, mem⟩ := echoes.parsed valid
    rw [preconditionFails, parsed]
    show (!matchesEntityTag (.tags tags) validators.etag .strong true) = false
    rw [known, matchesEntityTag_mem valid mem fun _ => strong]
    rfl

/-- What an echoed tag selects, whatever dates are sent with it. -/
theorem resolve_ifNoneMatch {request : FrameworkRequest} {validators : ResponseValidators} {emitted : JsString}
    (dated : FourDigitYear validators) (hold : PreconditionsHold host request validators) (referenceYear : Int)
    (written : (text "ETag", emitted) ∈ applyResponseValidators (some validators))
    (echoes : EchoesTag host request (text "if-none-match") emitted) :
    (resolveConditionalRequestRepresentation host referenceYear request (.exist (some validators))).outcome =
      if isSafeMethod host request.method then .notModified else .preconditionFailed := by
  obtain ⟨etag, known, valid, rfl⟩ := emitted_etag written
  obtain ⟨tags, parsed, mem⟩ := echoes.parsed valid
  have matched : matchesEntityTag (.tags tags) (some etag) .weak true = true := matchesEntityTag_mem valid mem nofun
  simp only [resolveConditionalRequestRepresentation, preconditionFails_hold dated hold, parsed, Option.bind_some, known,
    matched, Bool.false_eq_true, if_false, if_true]

theorem resolve_ifModifiedSince {request : FrameworkRequest} {validators : ResponseValidators}
    (dated : FourDigitYear validators) (hold : PreconditionsHold host request validators) (referenceYear : Int)
    (safe : isSafeMethod host request.method = true)
    (noTags : readFirstNonEmptyRequestHeaderValue host request (text "if-none-match") = none)
    (echoes : EchoesDate host request (text "if-modified-since") validators) :
    (resolveConditionalRequestRepresentation host referenceYear request (.exist (some validators))).outcome =
      .notModified := by
  obtain ⟨time, known, parsed⟩ := echoes.parsed dated referenceYear
  have nothing : parseEntityTagList ((none : Option JsString).getD []) = .invalid := rfl
  simp only [resolveConditionalRequestRepresentation, preconditionFails_hold dated hold, noTags, nothing, parsed,
    Option.bind_some, known, safe, Bool.false_eq_true, if_false, true_and, Int.le_refl, if_true]

theorem preconditionFails_tags {request : FrameworkRequest} {tags : List EntityTag}
    (parsed : parseEntityTagList ((readFirstNonEmptyRequestHeaderValue host request (text "if-match")).getD []) = .tags tags)
    (referenceYear : Int) (validators : ResponseValidators) :
    preconditionFails host referenceYear request (some validators) true =
      !matchesEntityTag (.tags tags) validators.etag .strong true := by
  rw [preconditionFails, parsed]
  rfl

theorem resolve_ifMatch_other {request : FrameworkRequest} {validators : ResponseValidators} {value : HeaderValue}
    {tags : List EntityTag} (sends : Sends host request (text "if-match") value) (lists : FieldLists value tags)
    (differ : ∀ tag ∈ tags, validators.etag ≠ some tag) (referenceYear : Int) :
    (resolveConditionalRequestRepresentation host referenceYear request (.exist (some validators))).outcome =
      .preconditionFailed := by
  obtain ⟨s, joined, parsed, -⟩ := lists.parsed
  have unmatched : matchesEntityTag (.tags tags) validators.etag .strong true = false := by
    rw [Bool.eq_false_iff]
    intro matched
    obtain ⟨etag, mem, known, -⟩ := matchesEntityTag_strong matched
    exact differ etag mem known
  rw [← Option.getD_some (a := s) (b := []), ← sends.read host joined] at parsed
  simp only [resolveConditionalRequestRepresentation, preconditionFails_tags parsed, unmatched, Bool.not_false, if_true]

theorem resolve_ifMatch_echo {request : FrameworkRequest} {validators : ResponseValidators} {emitted : JsString}
    (referenceYear : Int) (written : (text "ETag", emitted) ∈ applyResponseValidators (some validators))
    (echoes : EchoesTag host request (text "if-match") emitted)
    (noTags : readFirstNonEmptyRequestHeaderValue host request (text "if-none-match") = none)
    (noDate : readFirstNonEmptyRequestHeaderValue host request (text "if-modified-since") = none) :
    (resolveConditionalRequestRepresentation host referenceYear request (.exist (some validators))).outcome =
      if validators.etag.any (·.strength = .strong) then .proceed else .preconditionFailed := by
  obtain ⟨etag, known, valid, rfl⟩ := emitted_etag written
  obtain ⟨tags, parsed, mem⟩ := echoes.parsed valid
  have nothing : parseEntityTagList ((none : Option JsString).getD []) = .invalid := rfl
  have undated : parseHttpDate referenceYear none = none := rfl
  by_cases strong : etag.strength = .strong
  · have matched : matchesEntityTag (.tags tags) (some etag) .strong true = true :=
      matchesEntityTag_mem valid mem fun _ => strong
    simp only [resolveConditionalRequestRepresentation, preconditionFails_tags parsed, known, matched, Bool.not_true,
      Bool.false_eq_true, if_false, noTags, nothing, noDate, undated, Option.any_some, strong, decide_true, if_true]
  · have unmatched : matchesEntityTag (.tags tags) (some etag) .strong true = false := by
      rw [Bool.eq_false_iff]
      intro matched
      obtain ⟨tag, -, same, strong'⟩ := matchesEntityTag_strong matched
      cases same
      exact strong strong'
    simp only [resolveConditionalRequestRepresentation, preconditionFails_tags parsed, known, unmatched, Bool.not_false,
      if_true, Option.any_some, strong, decide_false, Bool.false_eq_true, if_false]

end

theorem isSafeMethod_iff {host : CaseMapping} {method : JsString} : isSafeMethod host method = true ↔
    host.toUpperCase method = text "GET" ∨ host.toUpperCase method = text "HEAD" := by
  simp [isSafeMethod]

theorem emits_etag {validators : ResponseValidators} {etag : EntityTag} (known : validators.etag = some etag)
    (valid : isValidEntityTag etag = true) :
    (text "ETag", formatEntityTag etag) ∈ applyResponseValidators (some validators) := by
  refine List.mem_append_left _ ?_
  rw [Option.bind_some, known]
  simp [valid]

theorem emits_lastModified {validators : ResponseValidators} {time : Int}
    (known : validators.lastModified = some (some time)) :
    (text "Last-Modified", toUTCString (time / 1000 * 1000)) ∈ applyResponseValidators (some validators) := by
  refine List.mem_append_right _ ?_
  rw [Option.bind_some, known]
  exact List.mem_singleton_self _

/-- Requests that echo the validators of an unchanged representation find it unchanged:
a `GET` or `HEAD` gets no body again, any other method fails its precondition. -/
theorem emitted_validators_revalidate (host : CaseMapping) (referenceYear : Int) (validators : ResponseValidators)
    (dated : FourDigitYear validators) (request : FrameworkRequest) :
    (∀ emitted, (text "ETag", emitted) ∈ applyResponseValidators (some validators) →
      PreconditionsHold host request validators → EchoesTag host request (text "if-none-match") emitted →
      (resolveConditionalRequestRepresentation host referenceYear request (.exist (some validators))).outcome =
        if host.toUpperCase request.method = text "GET" ∨ host.toUpperCase request.method = text "HEAD" then .notModified
        else .preconditionFailed) ∧
    (PreconditionsHold host request validators → EchoesDate host request (text "if-modified-since") validators →
      readFirstNonEmptyRequestHeaderValue host request (text "if-none-match") = none →
      host.toUpperCase request.method = text "GET" ∨ host.toUpperCase request.method = text "HEAD" →
      (resolveConditionalRequestRepresentation host referenceYear request (.exist (some validators))).outcome =
        .notModified) ∧
    (∀ value tags, Sends host request (text "if-match") value → FieldLists value tags →
      (∀ tag ∈ tags, validators.etag ≠ some tag) →
      (resolveConditionalRequestRepresentation host referenceYear request (.exist (some validators))).outcome =
        .preconditionFailed) ∧
    (∀ emitted, (text "ETag", emitted) ∈ applyResponseValidators (some validators) →
      EchoesTag host request (text "if-match") emitted →
      readFirstNonEmptyRequestHeaderValue host request (text "if-none-match") = none →
      readFirstNonEmptyRequestHeaderValue host request (text "if-modified-since") = none →
      (resolveConditionalRequestRepresentation host referenceYear request (.exist (some validators))).outcome =
        if validators.etag.any (·.strength = .strong) then .proceed else .preconditionFailed) :=
  ⟨fun _ written hold echoes =>
      (resolve_ifNoneMatch dated hold referenceYear written echoes).trans (if_congr isSafeMethod_iff rfl rfl),
    fun hold echoes noTags safe =>
      resolve_ifModifiedSince dated hold referenceYear (isSafeMethod_iff.mpr safe) noTags echoes,
    fun _ _ sends lists differ => resolve_ifMatch_other sends lists differ referenceYear,
    fun _ written echoes noTags noDate => resolve_ifMatch_echo referenceYear written echoes noTags noDate⟩

def conditionalRequest (name value : String) : FrameworkRequest where
  method := text "GET"
  explicitOrGet := false
  path := text "/"
  headers := [(text name, some (.one (text value)))]

def firstVersion : EntityTag := ⟨text "v1", .strong⟩

def shownRepresentation : ResponseValidators := ⟨some firstVersion, some (some 784111777123)⟩

theorem emitted_validators_revalidate_shown :
    (resolveConditionalRequestRepresentation .same 2026 (conditionalRequest "if-none-match" "W/\"v0\" , \"v1\"")
        (.exist (some shownRepresentation))).outcome = .notModified ∧
      (resolveConditionalRequestRepresentation .same 2026
        (conditionalRequest "if-modified-since" "Sun, 06 Nov 1994 08:49:37 GMT")
        (.exist (some shownRepresentation))).outcome = .notModified ∧
      (resolveConditionalRequestRepresentation .same 2026 (conditionalRequest "if-match" "\"v2\"")
        (.exist (some shownRepresentation))).outcome = .preconditionFailed ∧
      (resolveConditionalRequestRepresentation .same 2026 (conditionalRequest "if-match" "\"v1\"")
        (.exist (some shownRepresentation))).outcome = .proceed := by
  have dated : FourDigitYear shownRepresentation := by
    intro time known
    cases known
    decide
  have all := emitted_validators_revalidate .same 2026 shownRepresentation dated
  have sends (name value : String) (own : some (text name) = normalizeHeaderName .same (text name))
      (filled : (readJoinedNonEmptyHeaderValue (some (.one (text value)))).isSome = true) :
      Sends .same (conditionalRequest name value) (text name) (.one (text value)) :=
    ⟨text name, List.find?_cons_of_pos (by rw [Bool.and_eq_true]; exact ⟨decide_eq_true own, filled⟩)⟩
  have written : (text "ETag", formatEntityTag firstVersion) ∈ applyResponseValidators (some shownRepresentation) :=
    emits_etag rfl (by decide)
  have modified := @emits_lastModified shownRepresentation 784111777123 rfl
  rw [show toUTCString (784111777123 / 1000 * 1000) = text "Sun, 06 Nov 1994 08:49:37 GMT" by decide +kernel] at modified
  have single (tag : EntityTag) (valid : isValidEntityTag tag = true) : FieldLists (.one (formatEntityTag tag)) [tag] :=
    .one ⟨[], tag, [], [], ows_nil, ows_nil, valid, nofun, by simp [tagListText], rfl⟩
  have pair : FieldLists (.one (text "W/\"v0\" , \"v1\"")) [⟨text "v0", .weak⟩, firstVersion] :=
    .one ⟨[], ⟨text "v0", .weak⟩, [⟨text " ", text " ", firstVersion⟩], [], ows_nil, ows_nil, by decide,
      fun next mem => by
        cases List.mem_singleton.mp mem
        exact ⟨ows_space, ows_space, by decide +kernel⟩,
      by decide, rfl⟩
  refine ⟨?_, ?_, ?_, ?_⟩
  · exact (all _).1 _ written ⟨.inl (by decide +kernel), .inl (by decide +kernel)⟩
      ⟨_, _, sends "if-none-match" _ (by decide +kernel) (by decide +kernel), pair, by decide +kernel⟩
  · exact (all _).2.1 ⟨.inl (by decide +kernel), .inl (by decide +kernel)⟩
      ⟨_, modified, sends "if-modified-since" _ (by decide +kernel) (by decide +kernel)⟩
      (by decide +kernel) (.inl (by decide +kernel))
  · exact (all _).2.2.1 _ _ (sends "if-match" _ (by decide +kernel) (by decide +kernel))
      (single ⟨text "v2", .strong⟩ (by decide)) (by decide)
  · exact (all _).2.2.2 _ written
      ⟨_, _, sends "if-match" _ (by decide +kernel) (by decide +kernel), single firstVersion (by decide), by decide⟩
      (by decide +kernel) (by decide +kernel)

end Fluo.Http
