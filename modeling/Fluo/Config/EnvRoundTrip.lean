import Fluo.Config.EnvParser

/-!
# Quoted values in dotenv files

A file is written of assignments with quoted values, comments and blank lines, and is
parsed again. The first line of a value is trimmed at its end when the value goes on
over more lines, and the key `__proto__` is no property of the parsed object.
-/

namespace Fluo.Config.Env

open Js Code
open PlainObject (Record protoName)

/-! ## Files -/

/-- A line `KEY=qVALUEq`, perhaps indented, exported and with a colon. -/
structure Assignment where
  indent : JsString
  exported : Bool
  key : JsString
  separator : UInt16
  quote : UInt16
  value : JsString
  indent_blank : Blank indent ∧ lineFeed ∉ indent ∧ carriageReturn ∉ indent
  key_units : key ≠ [] ∧ key.all isKeyUnit = true
  separator_ : separator = unit '=' ∨ separator = unit ':'
  quote_ : quote = unit '\'' ∨ quote = unit '\x60'
  free : quote ∉ value
  closes : value.getLast? ≠ some backslash
  plain : carriageReturn ∉ value

def Assignment.front (a : Assignment) : JsString :=
  (if a.exported then exportPrefix else []) ++ (a.key ++ [a.separator])

def Assignment.text (a : Assignment) : JsString := a.indent ++ (a.front ++ a.quote :: (a.value ++ [a.quote]))

/-- An assignment, or a line that is blank or a comment. -/
inductive Item where
  | assignment (a : Assignment)
  | remark (line : JsString) (skipped : trim line = [] ∨ (trim line).head? = some (unit '#'))
      (oneLine : lineFeed ∉ line ∧ carriageReturn ∉ line)

def Item.text : Item → JsString
  | .assignment a => a.text
  | .remark line _ _ => line

def Item.assignment? : Item → Option Assignment
  | .assignment a => some a
  | .remark _ _ _ => none

def contentOf (items : List Item) : JsString := join lineFeed (items.map Item.text)

/-! ## Lines -/

theorem splitLines_plain {s : JsString} (plain : carriageReturn ∉ s) : splitLines s = s.splitOn lineFeed := by
  fun_induction splitLines s with
  | case1 => rfl
  | case2 => rfl
  | case3 u other => exact (List.splitOn_eq_singleton (by simpa using Ne.symm other)).symm
  | case4 u v rest pair => exact absurd (pair.1 ▸ List.mem_cons_self) plain
  | case5 v rest other ih =>
    rw [List.splitOn_cons_eq_if_modifyHead, if_pos (beq_self_eq_true _), ih fun mem => plain (List.mem_cons_of_mem _ mem)]
  | case6 u v rest pair other ih =>
    rw [List.splitOn_cons_eq_if_modifyHead, if_neg (by simpa using other), ih fun mem => plain (List.mem_cons_of_mem _ mem)]

theorem contentOf_lines (items : List Item) (some_ : items ≠ []) :
    (contentOf items).splitOn lineFeed = items.flatMap fun item => item.text.splitOn lineFeed := by
  induction items with
  | nil => exact absurd rfl some_
  | cons item items ih =>
    cases items with
    | nil => simp [contentOf, join]
    | cons next items =>
      have step : contentOf (item :: next :: items) = item.text ++ lineFeed :: contentOf (next :: items) := rfl
      rw [step, List.splitOn_append_cons_self, ih (List.cons_ne_nil _ _)]
      rfl

/-! ## Trimming -/

def trimEnd (s : JsString) : JsString := (s.reverse.dropWhile isWhiteSpace).reverse

theorem trimEnd_parts (s : JsString) :
    ∃ b, Blank b ∧ s = trimEnd s ++ b ∧ ∀ u ∈ (trimEnd s).getLast?, isWhiteSpace u = false := by
  refine ⟨(s.reverse.takeWhile isWhiteSpace).reverse, fun u mem => List.mem_takeWhile_imp (List.mem_reverse.mp mem), ?_, ?_⟩
  · rw [trimEnd, ← List.reverse_append, List.takeWhile_append_dropWhile, List.reverse_reverse]
  · intro u last
    rw [trimEnd, List.getLast?_reverse] at last
    have first := List.head?_dropWhile_not isWhiteSpace s.reverse
    rw [Option.mem_def.mp last] at first
    exact first

theorem trimEnd_self {s : JsString} (visible : ∀ u ∈ s.getLast?, isWhiteSpace u = false) : trimEnd s = s := by
  rcases List.eq_nil_or_concat s with rfl | ⟨front, u, rfl⟩
  · rfl
  · rw [List.concat_eq_append] at visible ⊢
    have mark := visible u (by simp)
    rw [trimEnd, List.reverse_append, List.reverse_singleton, List.singleton_append,
      List.dropWhile_cons_of_neg (by simp [mark]), List.reverse_cons, List.reverse_reverse]

/-- A text that starts with a visible unit is trimmed at its end only. -/
theorem trim_visible {u : UInt16} (mark : isWhiteSpace u = false) (s : JsString) : trim (u :: s) = u :: trimEnd s := by
  obtain ⟨b, blank, parts, last⟩ := trimEnd_parts s
  have ends : ∃ front v, u :: trimEnd s = front ++ [v] ∧ isWhiteSpace v = false := by
    rcases List.eq_nil_or_concat (trimEnd s) with empty | ⟨front, v, shape⟩
    · exact ⟨[], u, by rw [empty]; rfl, mark⟩
    · rw [List.concat_eq_append] at shape
      exact ⟨u :: front, v, by rw [shape]; rfl, last v (by simp [shape])⟩
  obtain ⟨front, v, shape, mark'⟩ := ends
  conv_lhs => rw [parts, ← List.cons_append]
  rw [trim_append_right blank, trim_eq_self rfl mark shape mark']

/-! ## Keys -/

theorem keyUnit_visible {u : UInt16} (h : isKeyUnit u = true) : isWhiteSpace u = false := by
  simp only [isKeyUnit, isDigit, Bool.or_eq_true, Bool.and_eq_true, decide_eq_true_eq, UInt16.le_iff_toNat_le,
    List.mem_cons, List.not_mem_nil, or_false] at h
  have bounds : (unit '0').toNat = 48 ∧ (unit '9').toNat = 57 ∧ (unit 'A').toNat = 65 ∧ (unit 'Z').toNat = 90 ∧
      (unit 'a').toNat = 97 ∧ (unit 'z').toNat = 122 := by decide
  rcases h with ((range | range) | range) | rfl | rfl | rfl
  · exact isWhiteSpace_visible (by omega) (by omega)
  · exact isWhiteSpace_visible (by omega) (by omega)
  · exact isWhiteSpace_visible (by omega) (by omega)
  all_goals decide

theorem keyUnit_other {u : UInt16} (h : isKeyUnit u = true) : isSeparator u = false ∧ u ≠ unit '#' ∧ u ≠ unit ' ' := by
  have no {v : UInt16} (bad : isKeyUnit v = false) : u ≠ v := by
    rintro rfl
    rw [h] at bad
    cases bad
  refine ⟨?_, no (by decide), no (by decide)⟩
  simp only [isSeparator, decide_eq_false_iff_not, List.mem_cons, List.not_mem_nil, or_false, not_or]
  exact ⟨no (by decide), no (by decide)⟩

theorem quote_mark {a : Assignment} : isWhiteSpace a.quote = false ∧ isQuote a.quote = true ∧ a.quote ≠ backslash ∧
    a.quote ≠ unit '"' ∧ a.quote ≠ lineFeed ∧ a.quote ≠ carriageReturn := by
  rcases a.quote_ with same | same <;> rw [same] <;> decide

theorem separator_mark {a : Assignment} : isSeparator a.separator = true ∧ a.separator ∉ exportPrefix ∧
    a.separator ≠ lineFeed ∧ a.separator ≠ carriageReturn := by
  rcases a.separator_ with same | same <;> rw [same] <;> decide

theorem not_export (a : Assignment) (t : JsString) : exportPrefix.isPrefixOf (a.key ++ a.separator :: t) = false := by
  rw [Bool.eq_false_iff]
  intro starts
  have units := List.all_eq_true.mp a.key_units.2
  obtain ⟨x, whole⟩ := List.isPrefixOf_iff_prefix.mp starts
  have noBlank : unit ' ' ∉ a.key := fun mem => (keyUnit_other (units _ mem)).2.2 rfl
  rcases List.append_eq_append_iff.mp whole with ⟨more, shape, -⟩ | ⟨more, shape, behind⟩
  · exact noBlank (shape ▸ List.mem_append_left _ (by decide))
  · cases more with
    | nil =>
      rw [List.append_nil] at shape
      exact noBlank (shape ▸ (by decide : unit ' ' ∈ exportPrefix))
    | cons u more =>
      injection behind with same
      have inside : a.separator ∈ u :: more := same ▸ List.mem_cons_self
      exact separator_mark.2.1 (shape ▸ List.mem_append_right _ inside)

theorem front_head (a : Assignment) : ∃ u rest, a.front = u :: rest ∧ isWhiteSpace u = false ∧ u ≠ unit '#' := by
  rw [Assignment.front]
  split
  · exact ⟨_, _, rfl, by decide, by decide⟩
  · cases shape : a.key with
    | nil => exact absurd shape a.key_units.1
    | cons u rest =>
      have mark : isKeyUnit u = true := List.all_eq_true.mp a.key_units.2 u (shape ▸ List.mem_cons_self)
      exact ⟨u, _, rfl, keyUnit_visible mark, (keyUnit_other mark).2.1⟩

/-- The key and the raw value of a line that an assignment begins. -/
theorem readEntry_front (a : Assignment) {w : JsString} (last : ∀ u ∈ w.getLast?, isWhiteSpace u = false) :
    readEntry (a.front ++ a.quote :: w) = some (a.key, a.quote :: w) := by
  have units := List.all_eq_true.mp a.key_units.2
  have entry : (if exportPrefix.isPrefixOf (a.front ++ a.quote :: w) then trimStart ((a.front ++ a.quote :: w).drop 7)
      else a.front ++ a.quote :: w) = a.key ++ a.separator :: a.quote :: w := by
    rw [Assignment.front]
    cases a.exported with
    | true =>
      have starts : exportPrefix.isPrefixOf ((if (true : Bool) then exportPrefix else []) ++ (a.key ++ [a.separator]) ++ a.quote :: w) = true :=
        List.isPrefixOf_iff_prefix.mpr ⟨a.key ++ [a.separator] ++ a.quote :: w, by simp⟩
      have seven : (exportPrefix ++ (a.key ++ [a.separator] ++ a.quote :: w)).drop 7 = a.key ++ [a.separator] ++ a.quote :: w :=
        List.drop_left' rfl
      rw [if_pos starts, if_pos rfl, List.append_assoc, seven, trimStart, List.append_assoc, List.singleton_append]
      cases shape : a.key with
      | nil => exact absurd shape a.key_units.1
      | cons u rest =>
        have mark : isWhiteSpace u = false := keyUnit_visible (units u (shape ▸ List.mem_cons_self))
        rw [List.cons_append, List.dropWhile_cons_of_neg (by simp [mark])]
    | false =>
      have plain : (if (false : Bool) then exportPrefix else []) ++ (a.key ++ [a.separator]) ++ a.quote :: w =
          a.key ++ a.separator :: a.quote :: w := by simp
      rw [plain, not_export a, if_neg Bool.false_ne_true]
  have index : (a.key ++ a.separator :: a.quote :: w).findIdx? isSeparator = some a.key.length := by
    rw [List.findIdx?_append, List.findIdx?_eq_none_iff.mpr fun u mem => (keyUnit_other (units u mem)).1, List.findIdx?_cons,
      if_pos separator_mark.1]
    simp
  have some_ : a.key.length ≠ 0 := fun empty => a.key_units.1 (List.length_eq_zero_iff.mp empty)
  have key_ : trim a.key = a.key := trim_self fun u mem => keyUnit_visible (units u mem)
  have raw : trim (a.quote :: w) = a.quote :: w := by rw [trim_visible quote_mark.1, trimEnd_self last]
  have tail : (a.key ++ a.separator :: a.quote :: w).drop (a.key.length + 1) = a.quote :: w := by
    rw [← List.drop_drop, List.drop_left]
    rfl
  rw [readEntry]
  dsimp only
  rw [entry, index]
  have found : (if trim (List.take a.key.length (a.key ++ a.separator :: a.quote :: w)) ≠ [] ∧
      (trim (List.take a.key.length (a.key ++ a.separator :: a.quote :: w))).all isKeyUnit = true then
        some (trim (List.take a.key.length (a.key ++ a.separator :: a.quote :: w)),
          trim (List.drop (a.key.length + 1) (a.key ++ a.separator :: a.quote :: w))) else none) = some (a.key, a.quote :: w) := by
    rw [List.take_left, key_, if_pos a.key_units, tail, raw]
  split
  next none_ => cases none_
  next zero => exact absurd (Option.some.inj zero) some_
  next separatorIndex _ same =>
    obtain rfl := Option.some.inj same
    exact found

/-! ## Quoted values -/

theorem closingFrom_none {quote : UInt16} {s : JsString} (free : quote ∉ s) (previous : UInt16) :
    closingFrom quote previous s = none := by
  induction s generalizing previous with
  | nil => rfl
  | cons u s ih =>
    obtain ⟨other, rest⟩ := not_or.mp (mt List.mem_cons.mpr free)
    rw [closingFrom, if_neg fun h => other h.1.symm, ih rest]
    rfl

/-- A quote that ends the value closes it unless a backslash stands before. -/
theorem closingFrom_end {quote previous : UInt16} {v : JsString} (free : quote ∉ v)
    (closes : (previous :: v).getLast? ≠ some backslash) (t : JsString) :
    closingFrom quote previous (v ++ quote :: t) = some v.length := by
  induction v generalizing previous with
  | nil =>
    have plain : previous ≠ backslash := fun same => closes (by rw [same]; rfl)
    rw [List.nil_append, closingFrom, if_pos ⟨rfl, plain⟩]
    rfl
  | cons u v ih =>
    obtain ⟨other, rest⟩ := not_or.mp (mt List.mem_cons.mpr free)
    rw [List.cons_append, closingFrom, if_neg fun h => other h.1.symm, ih rest (by rwa [List.getLast?_cons_cons] at closes)]
    rfl

theorem collect_closed {quote : UInt16} (mark : quote ≠ backslash) {v : JsString} (free : quote ∉ v)
    (closes : v.getLast? ≠ some backslash) (lines : List JsString) :
    collectQuotedEnvValue quote (quote :: (v ++ [quote])) lines = (quote :: (v ++ [quote]), lines) := by
  have last : (quote :: v).getLast? ≠ some backslash := by
    rcases List.eq_nil_or_concat v with rfl | ⟨front, u, rfl⟩
    · exact fun same => mark (Option.some.inj same)
    · rw [List.concat_eq_append] at closes ⊢
      rwa [← List.cons_append, List.getLast?_append_of_ne_nil _ (List.cons_ne_nil _ _), ← List.getLast?_append_of_ne_nil front (List.cons_ne_nil _ _)]
  have found : findClosingEnvQuote (quote :: (v ++ [quote])) quote = some (v.length + 1) := by
    rw [findClosingEnvQuote, closingFrom_end free last]
    rfl
  have whole : (quote :: (v ++ [quote])).take (v.length + 1 + 1) = quote :: (v ++ [quote]) :=
    List.take_of_length_le (by simp)
  rw [collectQuotedEnvValue.eq_def, found]
  dsimp only
  rw [whole]

/-- The lines of an open value are taken until the quote closes it. -/
theorem collect_open {quote : UInt16} (mark : quote ≠ backslash) (other : quote ≠ lineFeed) (later : JsString) {v : JsString}
    (free : quote ∉ v) (free' : quote ∉ later) (closes : later.getLast? ≠ some backslash) (lines : List JsString) :
    collectQuotedEnvValue quote (quote :: v) ((later ++ [quote]).splitOn lineFeed ++ lines) =
      (quote :: (v ++ lineFeed :: later ++ [quote]), lines) := by
  induction size : later.length using Nat.strongRecOn generalizing later v with
  | ind n ih =>
    have none_ : findClosingEnvQuote (quote :: v) quote = none := by
      rw [findClosingEnvQuote, closingFrom_none free]
      rfl
    have next (line : JsString) (lines : List JsString) : collectQuotedEnvValue quote (quote :: v) (line :: lines) =
        collectQuotedEnvValue quote (quote :: (v ++ lineFeed :: line)) lines := by
      conv_lhs => rw [collectQuotedEnvValue.eq_def, none_]
      rfl
    by_cases more : lineFeed ∈ later
    · have cut := takeWhile_cut more
      have noFeed := not_mem_takeWhile lineFeed later
      generalize later.takeWhile (· ≠ lineFeed) = line at cut noFeed
      generalize (later.dropWhile (· ≠ lineFeed)).drop 1 = rest at cut
      subst cut
      have freeLine : quote ∉ line := fun mem => free' (List.mem_append_left _ mem)
      have freeRest : quote ∉ rest := fun mem => free' (List.mem_append_right _ (List.mem_cons_of_mem _ mem))
      have free : quote ∉ v ++ lineFeed :: line := by
        rw [List.mem_append, List.mem_cons, not_or, not_or]
        exact ⟨free, other, freeLine⟩
      have closesRest : rest.getLast? ≠ some backslash := by
        intro last
        refine closes ?_
        rw [List.getLast?_append_of_ne_nil _ (List.cons_ne_nil _ _), List.getLast?_cons, last]
        rfl
      have pieces : (line ++ lineFeed :: rest ++ [quote]).splitOn lineFeed = line :: (rest ++ [quote]).splitOn lineFeed := by
        rw [List.append_assoc, List.cons_append, List.splitOn_append_cons_self, List.splitOn_eq_singleton noFeed]
        rfl
      have shorter : rest.length < n := by
        rw [← size, List.length_append, List.length_cons]
        omega
      rw [pieces, List.cons_append, next, ih rest.length shorter rest free freeRest closesRest rfl]
      simp
    · have one : (later ++ [quote]).splitOn lineFeed = [later ++ [quote]] :=
        List.splitOn_eq_singleton (by simpa [more] using Ne.symm other)
      have freeAll : quote ∉ v ++ lineFeed :: later := by
        rw [List.mem_append, List.mem_cons, not_or, not_or]
        exact ⟨free, other, free'⟩
      have closesAll : (v ++ lineFeed :: later).getLast? ≠ some backslash := by
        rw [List.getLast?_append_of_ne_nil _ (List.cons_ne_nil _ _)]
        rcases List.eq_nil_or_concat later with rfl | ⟨front, u, rfl⟩
        · decide
        · rw [List.concat_eq_append] at closes ⊢
          rwa [← List.cons_append, List.getLast?_append_of_ne_nil _ (List.cons_ne_nil _ _),
            ← List.getLast?_append_of_ne_nil front (List.cons_ne_nil _ _)]
      have shape : v ++ lineFeed :: (later ++ [quote]) = v ++ lineFeed :: later ++ [quote] := by simp
      rw [one, List.singleton_append, next, shape, collect_closed mark freeAll closesAll]

/-- What is stored of a value: a first line that is not the last is trimmed at its end. -/
def stored (value : JsString) : JsString :=
  if lineFeed ∈ value then trimEnd (value.takeWhile (· ≠ lineFeed)) ++ lineFeed :: (value.dropWhile (· ≠ lineFeed)).drop 1 else value

theorem unquote_quoted (a : Assignment) (v : JsString) : unquoteEnvValue (a.quote :: (v ++ [a.quote])) = v := by
  have long : ∃ u rest, v ++ [a.quote] = u :: rest := List.exists_cons_of_ne_nil (by simp)
  obtain ⟨u, rest, shape⟩ := long
  have last : (a.quote :: (v ++ [a.quote])).getLast? = some a.quote := by simp [List.getLast?_cons]
  have stays : ¬ (isQuote a.quote = false ∨ (a.quote :: u :: rest).getLast? ≠ some a.quote) := by
    rintro (no | no)
    · rw [quote_mark.2.1] at no
      cases no
    · exact no (shape ▸ last)
  rw [shape, unquoteEnvValue.eq_def]
  dsimp only
  rw [if_neg stays, if_neg quote_mark.2.2.2.1, ← shape, List.dropLast_concat]

theorem Assignment.front_free (a : Assignment) : lineFeed ∉ a.front ∧ carriageReturn ∉ a.front := by
  have units := List.all_eq_true.mp a.key_units.2
  have none_ {u : UInt16} (prefix_ : u ∉ exportPrefix) (unit_ : isKeyUnit u = false) (other : a.separator ≠ u) : u ∉ a.front := by
    rw [Assignment.front, List.mem_append, List.mem_append, List.mem_singleton, not_or, not_or]
    refine ⟨fun mem => ?_, fun mem => ?_, other.symm⟩
    · split at mem
      · exact prefix_ mem
      · cases mem
    · rw [units u mem] at unit_
      cases unit_
  exact ⟨none_ (by decide) (by decide) separator_mark.2.2.1, none_ (by decide) (by decide) separator_mark.2.2.2⟩

/-- The lines of an assignment store its value and leave the lines after it. -/
theorem parse_assignment (parsed : Record JsString) (a : Assignment) (lines : List JsString) :
    parseLines parsed (a.text.splitOn lineFeed ++ lines) =
      parseLines (parsed.assign a.key (.single (.data (stored a.value)))) lines := by
  obtain ⟨first, more, start, visible, noRemark⟩ := front_head a
  have begins (w : JsString) : a.front ++ a.quote :: w = first :: (more ++ a.quote :: w) := by rw [start, List.cons_append]
  -- A first line with `w` after the quote, and what is collected for it.
  have line (w : JsString) (rest : List JsString)
      (collected : collectQuotedEnvValue a.quote (a.quote :: trimEnd w) (rest ++ lines) = (a.quote :: (stored a.value ++ [a.quote]), lines)) :
      parseLines parsed ((a.indent ++ (a.front ++ a.quote :: w)) :: (rest ++ lines)) =
        parseLines (parsed.assign a.key (.single (.data (stored a.value)))) lines := by
    obtain ⟨b, blank, parts, last⟩ := trimEnd_parts w
    have trimmed : trim (a.indent ++ (a.front ++ a.quote :: w)) = a.front ++ a.quote :: trimEnd w := by
      have tail : trimEnd (more ++ a.quote :: w) = more ++ a.quote :: trimEnd w := by
        have visible' : ∀ u ∈ (more ++ a.quote :: trimEnd w).getLast?, isWhiteSpace u = false := by
          rw [List.getLast?_append_of_ne_nil _ (List.cons_ne_nil _ _), List.getLast?_cons]
          intro u mem
          cases ends : (trimEnd w).getLast? with
          | none =>
            rw [ends] at mem
            exact Option.some.inj mem ▸ quote_mark.1
          | some v =>
            rw [ends] at mem
            exact last u (ends.trans mem)
        have shape : more ++ a.quote :: w = (more ++ a.quote :: trimEnd w) ++ b := by
          conv_lhs => rw [parts]
          simp
        rw [← trimEnd_self visible', shape]
        rw [trimEnd, List.reverse_append, List.dropWhile_append_of_pos fun u mem => blank u (List.mem_reverse.mp mem), ← trimEnd,
          trimEnd_self visible']
      rw [trim_append_left a.indent_blank.1, begins, trim_visible visible, tail, begins]
    have read := readEntry_front a last
    rw [parseLines]
    dsimp only
    rw [trimmed, begins, if_neg (by simpa using noRemark), ← begins, read]
    have quoted : (a.quote :: trimEnd w).head?.filter isQuote = some a.quote := by
      rw [List.head?_cons, Option.filter_some, if_pos quote_mark.2.1]
    simp only [quoted, collected, unquote_quoted]
  have frontFree : lineFeed ∉ a.indent ++ (a.front ++ [a.quote]) := by
    rw [List.mem_append, List.mem_append, List.mem_singleton, not_or, not_or]
    exact ⟨a.indent_blank.2.1, a.front_free.1, quote_mark.2.2.2.2.1.symm⟩
  by_cases open_ : lineFeed ∈ a.value
  · have cut := takeWhile_cut open_
    have noFeed := not_mem_takeWhile lineFeed a.value
    have store : stored a.value =
        trimEnd (a.value.takeWhile (· ≠ lineFeed)) ++ lineFeed :: (a.value.dropWhile (· ≠ lineFeed)).drop 1 := if_pos open_
    generalize a.value.takeWhile (· ≠ lineFeed) = w at cut noFeed store
    generalize (a.value.dropWhile (· ≠ lineFeed)).drop 1 = later at cut store
    have free := a.free
    have closes := a.closes
    rw [← cut] at free closes
    obtain ⟨b, blank, parts, -⟩ := trimEnd_parts w
    have freeW : a.quote ∉ trimEnd w := fun mem => free (List.mem_append_left _ (parts ▸ List.mem_append_left _ mem))
    have freeLater : a.quote ∉ later := fun mem => free (List.mem_append_right _ (List.mem_cons_of_mem _ mem))
    have closesLater : later.getLast? ≠ some backslash := by
      intro last
      refine closes ?_
      rw [List.getLast?_append_of_ne_nil _ (List.cons_ne_nil _ _), List.getLast?_cons, last]
      rfl
    have pieces : a.text.splitOn lineFeed = (a.indent ++ (a.front ++ a.quote :: w)) :: (later ++ [a.quote]).splitOn lineFeed := by
      have text_ : a.text = (a.indent ++ (a.front ++ a.quote :: w)) ++ lineFeed :: (later ++ [a.quote]) := by
        rw [Assignment.text, ← cut]
        simp
      have whole : lineFeed ∉ a.indent ++ (a.front ++ a.quote :: w) := by
        have shape : a.indent ++ (a.front ++ a.quote :: w) = (a.indent ++ (a.front ++ [a.quote])) ++ w := by simp
        rw [shape, List.mem_append, not_or]
        exact ⟨frontFree, noFeed⟩
      rw [text_, List.splitOn_append_cons_self, List.splitOn_eq_singleton whole]
      rfl
    rw [pieces, List.cons_append]
    refine line w _ ?_
    rw [collect_open quote_mark.2.2.1 quote_mark.2.2.2.2.1 later freeW freeLater closesLater, store]
  · have store : stored a.value = a.value := if_neg open_
    have whole : lineFeed ∉ a.text := by
      have shape : a.text = (a.indent ++ (a.front ++ [a.quote])) ++ (a.value ++ [a.quote]) := by simp [Assignment.text]
      rw [shape]
      intro mem
      rcases List.mem_append.mp mem with before | behind
      · exact frontFree before
      · rcases List.mem_append.mp behind with inside | last
        · exact open_ inside
        · exact quote_mark.2.2.2.2.1 (List.mem_singleton.mp last).symm
    have ends : trimEnd (a.value ++ [a.quote]) = a.value ++ [a.quote] :=
      trimEnd_self fun u mem => by
        rw [List.getLast?_concat] at mem
        exact Option.some.inj mem ▸ quote_mark.1
    rw [List.splitOn_eq_singleton whole, Assignment.text]
    refine line (a.value ++ [a.quote]) [] ?_
    rw [ends, store, List.nil_append, collect_closed quote_mark.2.2.1 a.free a.closes]

theorem parse_remark (parsed : Record JsString) {line : JsString} (skipped : trim line = [] ∨ (trim line).head? = some (unit '#'))
    (lines : List JsString) : parseLines parsed (line :: lines) = parseLines parsed lines := by
  conv_lhs => rw [parseLines]
  rw [if_pos skipped]

/-! ## Files are read back -/

/-- The assignments of a file store their values one after another. -/
theorem parseDotenvContent_contentOf (items : List Item) :
    parseDotenvContent (contentOf items) = (items.filterMap Item.assignment?).foldl
      (fun parsed a => parsed.assign a.key (.single (.data (stored a.value)))) .empty := by
  have noReturn (item : Item) : carriageReturn ∉ item.text := by
    cases item with
    | remark line _ oneLine => exact oneLine.2
    | assignment a =>
      have shape : a.text = a.indent ++ (a.front ++ (a.quote :: (a.value ++ [a.quote]))) := rfl
      show carriageReturn ∉ a.text
      rw [shape]
      simp only [List.mem_append, List.mem_cons, List.not_mem_nil, or_false, not_or]
      exact ⟨a.indent_blank.2.2, a.front_free.2, quote_mark.2.2.2.2.2.symm, a.plain, quote_mark.2.2.2.2.2.symm⟩
  have plain : carriageReturn ∉ contentOf items := by
    intro mem
    rcases mem_join mem with same | ⟨x, inItems, inside⟩
    · cases same
    · obtain ⟨item, -, rfl⟩ := List.mem_map.mp inItems
      exact noReturn item inside
  have run (parsed : Record JsString) (items : List Item) : parseLines parsed (items.flatMap fun item => item.text.splitOn lineFeed) =
      (items.filterMap Item.assignment?).foldl (fun parsed a => parsed.assign a.key (.single (.data (stored a.value)))) parsed := by
    induction items generalizing parsed with
    | nil => rw [List.flatMap_nil, parseLines]; rfl
    | cons item items ih =>
      rw [List.flatMap_cons]
      cases item with
      | assignment a =>
        show parseLines parsed (a.text.splitOn lineFeed ++ _) = _
        rw [parse_assignment, ih]
        rfl
      | remark line skipped oneLine =>
        show parseLines parsed (line.splitOn lineFeed ++ _) = _
        rw [List.splitOn_eq_singleton oneLine.1, List.singleton_append, parse_remark parsed skipped, ih]
        rfl
  rw [parseDotenvContent, splitLines_plain plain]
  cases items with
  | nil =>
    have blank : (contentOf []).splitOn lineFeed = [[]] := rfl
    rw [blank, parse_remark _ (.inl rfl), parseLines]
    rfl
  | cons item items => rw [contentOf_lines _ (List.cons_ne_nil _ _), run]

/-- The value goes on over more lines, and its first line ends with white space. -/
def Frayed (value : JsString) : Prop :=
  lineFeed ∈ value ∧ ∃ u ∈ (value.takeWhile (· ≠ lineFeed)).getLast?, isWhiteSpace u = true

theorem stored_eq_iff (value : JsString) : stored value = value ↔ ¬ Frayed value := by
  by_cases open_ : lineFeed ∈ value
  · have cut := takeWhile_cut open_
    rw [stored, if_pos open_, Frayed]
    generalize value.takeWhile (· ≠ lineFeed) = w at cut
    generalize (value.dropWhile (· ≠ lineFeed)).drop 1 = later at cut
    have same : trimEnd w ++ lineFeed :: later = value ↔ trimEnd w = w := by
      rw [← cut]
      exact ⟨List.append_cancel_right, fun h => by rw [h]⟩
    rw [same]
    constructor
    · rintro kept ⟨-, u, last, blank⟩
      obtain ⟨-, -, -, visible⟩ := trimEnd_parts w
      rw [kept] at visible
      rw [visible u last] at blank
      cases blank
    · intro whole
      refine trimEnd_self fun u last => ?_
      by_contra blank
      exact whole ⟨open_, u, last, by simpa using blank⟩
  · rw [stored, if_neg open_]
    exact ⟨fun _ frayed => open_ frayed.1, fun _ => rfl⟩

theorem get_stored {l : List Assignment} (distinct : (l.map Assignment.key).Nodup) (parsed : Record JsString) (name : JsString) :
    (l.foldl (fun parsed a => parsed.assign a.key (.single (.data (stored a.value)))) parsed).own.get name =
      match l.find? (·.key = name) with
      | some a => if name = protoName then parsed.own.get name else some (.single (.data (stored a.value)))
      | none => parsed.own.get name := by
  induction l generalizing parsed with
  | nil => rfl
  | cons a l ih =>
    obtain ⟨fresh, distinct⟩ := List.nodup_cons.mp distinct
    have assigned : (parsed.assign a.key (.single (.data (stored a.value)))).own.get name =
        if name = a.key ∧ name ≠ protoName then some (.single (.data (stored a.value))) else parsed.own.get name := by
      rw [Record.assign]
      split
      next proto => exact (if_neg fun h => h.2 (h.1.trans proto)).symm
      next ordinary =>
        rw [OrderedMap.get_set]
        by_cases same : name = a.key
        · rw [if_pos same, if_pos ⟨same, same ▸ ordinary⟩]
        · rw [if_neg same, if_neg fun h => same h.1]
    rw [List.foldl_cons, ih distinct, assigned]
    by_cases same : a.key = name
    · have later : l.find? (·.key = name) = none :=
        List.find?_eq_none.mpr fun b mem twice => fresh (List.mem_map.mpr ⟨b, mem, (of_decide_eq_true twice).trans same.symm⟩)
      rw [List.find?_cons_of_pos (by simpa using same), later]
      dsimp only
      by_cases proto : name = protoName
      · rw [if_pos proto, if_neg fun h => h.2 proto]
      · rw [if_neg proto, if_pos ⟨same.symm, proto⟩]
    · rw [List.find?_cons_of_neg (by simpa using same), if_neg fun h => same h.1.symm]

/-- The value of a key in a file. -/
def written (items : List Item) (name : JsString) : Option (PlainObject.Field JsString) :=
  ((items.filterMap Item.assignment?).find? (·.key = name)).map fun a => .single (.data a.value)

/-- A file is parsed to exactly its keys with exactly their values if and only if no key
is `__proto__` and no value of several lines has white space at the end of its first line. -/
theorem parseDotenvContent_written_iff {items : List Item}
    (distinct : ((items.filterMap Item.assignment?).map Assignment.key).Nodup) :
    (∀ name, (parseDotenvContent (contentOf items)).own.get name = written items name) ↔
      ∀ a ∈ items.filterMap Item.assignment?, a.key ≠ protoName ∧ ¬ Frayed a.value := by
  rw [parseDotenvContent_contentOf]
  unfold written
  generalize items.filterMap Item.assignment? = l at distinct
  constructor
  · intro same a mem
    have first : l.find? (·.key = a.key) = some a := by
      cases found : l.find? (·.key = a.key) with
      | none => exact absurd (decide_eq_true rfl) (List.find?_eq_none.mp found a mem)
      | some b =>
        have keys : b.key = a.key := by simpa using List.find?_some found
        rw [List.inj_on_of_nodup_map distinct (List.mem_of_find?_eq_some found) mem keys]
    have at_ := same a.key
    rw [get_stored distinct, first] at at_
    dsimp only [Option.map_some] at at_
    split at at_
    · cases at_
    next ordinary =>
      refine ⟨ordinary, (stored_eq_iff a.value).mp ?_⟩
      injection at_ with field
      injection field with value
      injection value
  · intro fine name
    rw [get_stored distinct]
    cases found : l.find? (·.key = name) with
    | none => rfl
    | some a =>
      have keys : a.key = name := by simpa using List.find?_some found
      obtain ⟨ordinary, whole⟩ := fine a (List.mem_of_find?_eq_some found)
      dsimp only [Option.map_some]
      rw [if_neg (keys ▸ ordinary), (stored_eq_iff a.value).mpr whole]

/-- `KEY='a ⏎b'`, where a blank stands before the line feed. -/
def frayedAssignment : Assignment :=
  ⟨[], false, text "KEY", unit '=', unit '\'', text "a \nb", ⟨nofun, by decide, by decide⟩, by decide, by decide, by decide, by decide,
    by decide, by decide⟩

theorem frayed_value_trimmed :
    (parseDotenvContent (contentOf [.assignment frayedAssignment])).own.get (text "KEY") = some (.single (.data (text "a\nb"))) ∧
      written [.assignment frayedAssignment] (text "KEY") = some (.single (.data (text "a \nb"))) := by
  rw [parseDotenvContent_contentOf]
  exact ⟨rfl, rfl⟩

def exportedAssignment : Assignment :=
  ⟨text "  ", true, text "MESSAGE", unit ':', unit '\x60', text "# it's = a\n\n list ",
    ⟨forall_members (by decide), by decide, by decide⟩, by decide, by decide, by decide, by decide,
    by decide, by decide⟩

/-- An indented export after a blank line and before a comment is read back. -/
theorem exported_read_back :
    (parseDotenvContent (contentOf [.remark [] (.inl rfl) ⟨nofun, nofun⟩, .assignment exportedAssignment,
      .remark (text " # note") (.inr (by decide)) (by decide)])).own.get (text "MESSAGE") =
      some (.single (.data (text "# it's = a\n\n list "))) := by
  have whole : ¬ Frayed exportedAssignment.value := by
    rintro ⟨-, u, last, blank⟩
    obtain rfl : unit 'a' = u := by simpa [exportedAssignment, text, List.takeWhile, lineFeed, unit] using last
    cases blank
  let items : List Item := [.remark [] (.inl rfl) ⟨nofun, nofun⟩, .assignment exportedAssignment,
    .remark (text " # note") (.inr (by decide)) (by decide)]
  have distinct : ((items.filterMap Item.assignment?).map Assignment.key).Nodup := List.nodup_singleton _
  refine ((parseDotenvContent_written_iff distinct).mpr (fun a mem => ?_) (text "MESSAGE")).trans rfl
  have same : a = exportedAssignment := List.mem_singleton.mp mem
  exact same ▸ ⟨by decide, whole⟩

end Fluo.Config.Env
