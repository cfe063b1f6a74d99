import Fluo.Lib.Json
import Fluo.Lib.FormUrlEncoded

/-!
# JSON texts are read as what they were made of
-/

namespace Fluo.Js

/-! ## Strings -/

theorem hexUnit_lowerHex (u : UInt16) :
    hexUnit (lowerHex (u.toNat / 4096)) (lowerHex (u.toNat / 256 % 16)) (lowerHex (u.toNat / 16 % 16)) (lowerHex (u.toNat % 16)) =
      some u := by
  have digit : ∀ n < 16, hexValue (lowerHex n).toNat = some n := by decide
  have bound := u.toNat_lt
  rw [hexUnit, digit _ (by omega), digit _ (by omega), digit _ (by omega), digit _ (by omega)]
  have whole : ((u.toNat / 4096 * 16 + u.toNat / 256 % 16) * 16 + u.toNat / 16 % 16) * 16 + u.toNat % 16 = u.toNat := by omega
  show some (((u.toNat / 4096 * 16 + u.toNat / 256 % 16) * 16 + u.toNat / 16 % 16) * 16 + u.toNat % 16).toUInt16 = some u
  rw [whole]
  simp

theorem readString_kept {u : UInt16} (quote_ : u ≠ unit '"') (slash : u ≠ unit '\\') (visible : ¬ u.toNat < 0x20) (t : JsString) :
    readString (u :: t) = (readString t).map fun p => (u :: p.1, p.2) := by
  conv_lhs => unfold readString
  rw [if_neg quote_, if_neg slash, if_neg visible]

theorem readString_quoteUnit (u : UInt16) (t : JsString) :
    readString (quoteUnit u ++ t) = (readString t).map fun p => (u :: p.1, p.2) := by
  have short : ∀ e ∈ shortEscapes, e.2 ≠ unit 'u' ∧ unescape e.2 = some e.1 := forall_members (by decide)
  rw [quoteUnit]
  cases found : shortEscapes.find? (·.1 = u) with
  | some e =>
    obtain ⟨key, letter⟩ := e
    have same : key = u := by simpa using List.find?_some found
    obtain ⟨notU, back⟩ := short _ (List.mem_of_find?_eq_some found)
    show readString (unit '\\' :: letter :: t) = _
    conv_lhs => unfold readString
    rw [if_neg (by decide), if_pos rfl]
    simp only [if_neg notU, back, same]
    rfl
  | none =>
    have absent := List.find?_eq_none.mp found
    have other {e : UInt16 × UInt16} (mem : e ∈ shortEscapes) : u ≠ e.1 := fun same => absent e mem (decide_eq_true same.symm)
    dsimp only
    split
    · show readString (unit '\\' :: unit 'u' :: _ :: _ :: _ :: _ :: t) = _
      conv_lhs => unfold readString
      rw [if_neg (by decide), if_pos rfl]
      simp only [if_true, hexUnit_lowerHex]
      rfl
    next plain =>
      have visible : ¬ u.toNat < 0x20 := by
        intro low
        simp [low] at plain
      have quote_ : u ≠ unit '"' := @other (unit '"', unit '"') (by decide)
      have slash : u ≠ unit '\\' := @other (unit '\\', unit '\\') (by decide)
      exact readString_kept quote_ slash visible t

theorem readString_close (t : JsString) : readString (unit '"' :: t) = some ([], t) := by
  conv_lhs => unfold readString
  rw [if_pos rfl]

/-- A quoted string is read back, and what follows it stays. -/
theorem readString_quoteUnits (s t : JsString) : readString (quoteUnits s ++ unit '"' :: t) = some (s, t) := by
  fun_induction quoteUnits s with
  | case1 => exact readString_close t
  | case2 u =>
    rw [readString_quoteUnit, readString_close]
    rfl
  | case3 u v rest pair ih =>
    have high := (Bool.and_eq_true_iff.mp pair).1
    have low := (Bool.and_eq_true_iff.mp pair).2
    simp only [isHighSurrogate, isLowSurrogate, Bool.and_eq_true, decide_eq_true_eq] at high low
    have kept {w : UInt16} (large : 0xD800 ≤ w.toNat) (t : JsString) :
        readString (w :: t) = (readString t).map fun p => (w :: p.1, p.2) := by
      refine readString_kept ?_ ?_ (by omega) t
      · rintro rfl
        exact absurd large (by decide)
      · rintro rfl
        exact absurd large (by decide)
    rw [List.cons_append, List.cons_append, kept (by omega), kept (by omega), ih]
    rfl
  | case4 u v rest apart ih =>
    rw [List.append_assoc, readString_quoteUnit, ih]
    rfl

/-! ## Values -/

variable {N : Type} (format : NumberFormat N)

theorem lastValues_distinct {entries : List (JsString × Json N)} (distinct : (entries.map Prod.fst).Nodup) :
    lastValues entries = entries := by
  have fresh {k : JsString} {v : Json N} {l : List (JsString × Json N)} (new : k ∉ l.map Prod.fst) :
      OrderedMap.write k v l = l ++ [(k, v)] := by
    induction l with
    | nil => rfl
    | cons e l ih =>
      obtain ⟨other, later⟩ := not_or.mp (mt List.mem_cons.mpr new)
      rw [OrderedMap.write, if_neg (Ne.symm other), ih later]
      rfl
  have all (l m : List (JsString × Json N)) (distinct : ((l ++ m).map Prod.fst).Nodup) :
      m.foldl (fun l e => OrderedMap.write e.1 e.2 l) l = l ++ m := by
    induction m generalizing l with
    | nil => exact (List.append_nil l).symm
    | cons e m ih =>
      have new : e.1 ∉ l.map Prod.fst := by
        rw [List.map_append, List.nodup_append] at distinct
        exact fun mem => distinct.2.2 _ mem _ List.mem_cons_self rfl
      rw [List.foldl_cons, fresh new, ih (l ++ [e]) (by rwa [← List.append_cons]), ← List.append_cons]
  exact all [] entries distinct

theorem numberHead_other {u : UInt16} (start : u = unit '-' ∨ isDigit u = true) :
    isJsonSpace u = false ∧ u ≠ unit '"' ∧ u ≠ unit '[' ∧ u ≠ unit ']' ∧ u ≠ unit '\x7b' := by
  rcases start with rfl | digit
  · decide
  · simp only [isDigit, Bool.and_eq_true, decide_eq_true_eq, UInt16.le_iff_toNat_le] at digit
    have zero : (unit '0').toNat = 48 := rfl
    have nine : (unit '9').toNat = 57 := rfl
    have other {w : UInt16} (far : w.toNat < 48 ∨ 57 < w.toNat) : u ≠ w := by
      rintro rfl
      omega
    refine ⟨?_, other (by decide), other (by decide), other (by decide), other (by decide)⟩
    simp only [isJsonSpace, decide_eq_false_iff_not, List.mem_cons, List.not_mem_nil, or_false, not_or]
    exact ⟨other (by decide), other (by decide), other (by decide), other (by decide)⟩

theorem stringify_head (v : Json N) :
    ∃ u rest, stringify format v = u :: rest ∧ isJsonSpace u = false ∧ u ≠ unit ']' := by
  cases v with
  | null => exact ⟨_, _, rfl, by decide, by decide⟩
  | bool b => cases b <;> exact ⟨_, _, rfl, by decide, by decide⟩
  | string s => exact ⟨_, _, rfl, by decide, by decide⟩
  | array items => exact ⟨_, _, rfl, by decide, by decide⟩
  | object entries => exact ⟨_, _, rfl, by decide, by decide⟩
  | number n =>
    obtain ⟨u, rest, shape, start⟩ := format.head n
    obtain ⟨noSpace, -, -, noClose, -⟩ := numberHead_other start
    exact ⟨u, rest, shape, noSpace, noClose⟩

theorem skipSpace_cons {u : UInt16} (h : isJsonSpace u = false) (s : JsString) : skipSpace (u :: s) = u :: s :=
  List.dropWhile_cons_of_neg (by simp [h])

def Ends (rest : JsString) : Prop := ∀ u ∈ rest.head?, isNumberUnit u = false

theorem readNumberToken_text (n : N) {rest : JsString} (ends : Ends rest) :
    readNumberToken format (format.text n ++ rest) = some (.number n, rest) := by
  have all := List.all_eq_true.mp (format.units n)
  have cut : (format.text n ++ rest).takeWhile isNumberUnit = format.text n ∧
      (format.text n ++ rest).dropWhile isNumberUnit = rest := by
    rw [List.takeWhile_append_of_pos all, List.dropWhile_append_of_pos all]
    cases rest with
    | nil => exact ⟨List.append_nil _, rfl⟩
    | cons u rest =>
      have no := ends u rfl
      rw [List.takeWhile_cons_of_neg (by simp [no]), List.dropWhile_cons_of_neg (by simp [no])]
      exact ⟨List.append_nil _, rfl⟩
  rw [readNumberToken, cut.1, cut.2, format.read_text]
  rfl

theorem quote_append (k t : JsString) : quote k ++ t = unit '"' :: (quoteUnits k ++ unit '"' :: t) := by
  rw [quote, List.cons_append, List.append_assoc]
  rfl

theorem ends_cons {u : UInt16} (other : isNumberUnit u = false) (rest : JsString) : Ends (u :: rest) := by
  intro w head
  rw [← Option.some.inj head]
  exact other

theorem readValue_number (n : N) (fuel : Nat) {rest : JsString} (ends : Ends rest) :
    readValue format (fuel + 1) (format.text n ++ rest) = some (.number n, rest) := by
  obtain ⟨u, tail, shape, start⟩ := format.head n
  obtain ⟨noSpace, noQuote, noItems, -, noEntries⟩ := numberHead_other start
  have starts : (u = unit '-' || isDigit u) = true := by simpa using start
  rw [← readNumberToken_text format n ends, shape, List.cons_append, readValue, skipSpace_cons noSpace]
  dsimp only
  rw [if_neg noQuote, if_neg noItems, if_neg noEntries, if_pos starts]

theorem stringifyItems_head (v : Json N) (items : List (Json N)) :
    ∃ u rest, stringifyItems format (v :: items) = u :: rest ∧ isJsonSpace u = false ∧ u ≠ unit ']' := by
  obtain ⟨u, tail, shape, first⟩ := stringify_head format v
  cases items with
  | nil => exact ⟨u, tail, by rw [stringifyItems, shape], first⟩
  | cons w items => exact ⟨u, _, by rw [stringifyItems, shape, List.cons_append], first⟩

theorem stringifyEntries_head (e : JsString × Json N) (entries : List (JsString × Json N)) :
    ∃ rest, stringifyEntries format (e :: entries) = unit '"' :: rest := by
  obtain ⟨k, v⟩ := e
  cases entries with
  | nil => exact ⟨_, by rw [stringifyEntries, quote, List.cons_append]⟩
  | cons e entries => exact ⟨_, by rw [stringifyEntries, quote, List.cons_append]⟩

mutual

/-- The text of a value is read as the value, and what follows it stays. -/
theorem readValue_stringify (v : Json N) (distinct : v.Distinct) {fuel : Nat} (enough : (stringify format v).length < fuel)
    {rest : JsString} (ends : Ends rest) : readValue format fuel (stringify format v ++ rest) = some (v, rest) := by
  obtain ⟨fuel, rfl⟩ : ∃ n, fuel = n + 1 := ⟨fuel - 1, by omega⟩
  match v, distinct, enough with
  | .null, _, _ => simp [stringify, readValue, skipSpace, text, unit, readLiteral, isJsonSpace, isDigit]
  | .bool b, _, _ => cases b <;> simp [stringify, readValue, skipSpace, text, unit, readLiteral, isJsonSpace, isDigit]
  | .number n, _, _ => exact readValue_number format n fuel ends
  | .string s, _, _ =>
    rw [stringify, readValue, quote_append, skipSpace_cons (by decide)]
    dsimp only
    rw [if_pos rfl, readString_quoteUnits]
    rfl
  | .array [], _, _ =>
    rw [stringify, stringifyItems, readValue, List.nil_append, List.cons_append, skipSpace_cons (by decide)]
    dsimp only
    rw [if_neg (by decide), if_pos rfl, List.singleton_append, skipSpace_cons (by decide)]
    rfl
  | .array (v :: items), distinct, enough =>
    rw [stringify, List.length_cons, List.length_append, List.length_singleton] at enough
    have read : readItems format fuel _ = some (v :: items, rest) :=
      readItems_stringify (v :: items) (List.cons_ne_nil _ _) distinct (by omega) rest
    obtain ⟨u, tail, shape, noSpace, noClose⟩ := stringifyItems_head format v items
    rw [stringify, readValue, List.cons_append, List.append_assoc, List.singleton_append, skipSpace_cons (by decide)]
    dsimp only
    have open_ : (u :: (tail ++ unit ']' :: rest)).head? ≠ some (unit ']') := fun same => noClose (Option.some.inj same)
    rw [if_neg (by decide), if_pos rfl, read, shape, List.cons_append, skipSpace_cons noSpace, if_neg open_]
    rfl
  | .object [], _, _ =>
    rw [stringify, stringifyEntries, readValue, List.nil_append, List.cons_append, skipSpace_cons (by decide)]
    dsimp only
    rw [if_neg (by decide), if_neg (by decide), if_pos rfl, List.singleton_append, skipSpace_cons (by decide)]
    rfl
  | .object (e :: entries), distinct, enough =>
    rw [stringify, List.length_cons, List.length_append, List.length_singleton] at enough
    have read : readEntries format fuel _ = some (e :: entries, rest) :=
      readEntries_stringify (e :: entries) (List.cons_ne_nil _ _) distinct.2 (by omega) rest
    obtain ⟨tail, shape⟩ := stringifyEntries_head format e entries
    rw [stringify, readValue, List.cons_append, List.append_assoc, List.singleton_append, skipSpace_cons (by decide)]
    dsimp only
    have open_ : (unit '"' :: (tail ++ unit '\x7d' :: rest)).head? ≠ some (unit '\x7d') :=
      fun same => absurd (Option.some.inj same) (by decide)
    rw [if_neg (by decide), if_neg (by decide), if_pos rfl, read, shape, List.cons_append, skipSpace_cons (by decide),
      if_neg open_, Option.map_some, lastValues_distinct distinct.1]

theorem readItems_stringify (items : List (Json N)) (some_ : items ≠ []) (distinct : Json.DistinctItems items) {fuel : Nat}
    (enough : (stringifyItems format items).length + 1 < fuel) (rest : JsString) :
    readItems format fuel (stringifyItems format items ++ unit ']' :: rest) = some (items, rest) := by
  obtain ⟨fuel, rfl⟩ : ∃ n, fuel = n + 1 := ⟨fuel - 1, by omega⟩
  match items, some_, distinct, enough with
  | [v], _, distinct, enough =>
    rw [stringifyItems] at enough ⊢
    rw [readItems, readValue_stringify v distinct.1 (by omega) (ends_cons (by decide) rest), Option.bind_some, skipSpace_cons (by decide)]
    dsimp only
    rw [if_neg (by decide), if_pos rfl]
  | v :: w :: items, _, distinct, enough =>
    rw [stringifyItems] at enough ⊢
    rw [List.length_append, List.length_cons] at enough
    rw [List.append_assoc, List.cons_append, readItems, readValue_stringify v distinct.1 (by omega) (ends_cons (by decide) _), Option.bind_some,
      skipSpace_cons (by decide)]
    dsimp only
    rw [if_pos rfl, readItems_stringify (w :: items) (List.cons_ne_nil _ _) distinct.2 (by omega) rest]
    rfl

theorem readEntries_stringify (entries : List (JsString × Json N)) (some_ : entries ≠ []) (distinct : Json.DistinctEntries entries)
    {fuel : Nat} (enough : (stringifyEntries format entries).length + 1 < fuel) (rest : JsString) :
    readEntries format fuel (stringifyEntries format entries ++ unit '\x7d' :: rest) = some (entries, rest) := by
  obtain ⟨fuel, rfl⟩ : ∃ n, fuel = n + 1 := ⟨fuel - 1, by omega⟩
  match entries, some_, distinct, enough with
  | [(k, v)], _, distinct, enough =>
    rw [stringifyEntries] at enough ⊢
    rw [List.length_append, List.length_cons] at enough
    rw [List.append_assoc, List.cons_append, quote_append, readEntries, skipSpace_cons (by decide)]
    dsimp only
    rw [if_pos rfl, readString_quoteUnits, Option.bind_some, skipSpace_cons (by decide)]
    dsimp only
    rw [if_pos rfl, readValue_stringify v distinct.1 (by omega) (ends_cons (by decide) rest), Option.bind_some,
      skipSpace_cons (by decide)]
    dsimp only
    rw [if_neg (by decide), if_pos rfl]
  | (k, v) :: e :: entries, _, distinct, enough =>
    rw [stringifyEntries] at enough ⊢
    rw [List.length_append, List.length_cons, List.length_append, List.length_cons] at enough
    rw [List.append_assoc, List.cons_append, List.append_assoc, List.cons_append, quote_append, readEntries,
      skipSpace_cons (by decide)]
    dsimp only
    rw [if_pos rfl, readString_quoteUnits, Option.bind_some, skipSpace_cons (by decide)]
    dsimp only
    rw [if_pos rfl, readValue_stringify v distinct.1 (by omega) (ends_cons (by decide) _), Option.bind_some,
      skipSpace_cons (by decide)]
    dsimp only
    rw [if_pos rfl, readEntries_stringify (e :: entries) (List.cons_ne_nil _ _) distinct.2 (by omega) rest]
    rfl

end

/-- `JSON.parse` gives back what `JSON.stringify` was given. -/
theorem parseJson_stringify (v : Json N) (distinct : v.Distinct) : parseJson format (stringify format v) = some v := by
  have read := readValue_stringify format v distinct (Nat.lt_succ_self _) (show Ends [] from nofun)
  rw [List.append_nil] at read
  rw [parseJson, read, Option.bind_some]
  rfl

/-! ## Units -/

/-- No control characters, and no surrogate that is unpaired. -/
def Clean (x : JsString) : Prop :=
  (∀ u ∈ x, 0x20 ≤ u.toNat) ∧ ∀ t, (codePoints t).isSome → (codePoints (x ++ t)).isSome

theorem clean_nil : Clean [] := ⟨List.forall_mem_nil _, fun _ h => h⟩

theorem Clean.append {x y : JsString} (first : Clean x) (second : Clean y) : Clean (x ++ y) := by
  refine ⟨fun u mem => (List.mem_append.mp mem).elim (first.1 u) (second.1 u), fun t h => ?_⟩
  rw [List.append_assoc]
  exact first.2 _ (second.2 t h)

theorem clean_unit {u : UInt16} (visible : 0x20 ≤ u.toNat) (plain : isPlain u = true) : Clean [u] := by
  refine ⟨fun w mem => (List.mem_singleton.mp mem) ▸ visible, fun t h => ?_⟩
  rw [List.singleton_append, codePoints_plain plain, Option.isSome_map]
  exact h

theorem Clean.cons {u : UInt16} (visible : 0x20 ≤ u.toNat) (plain : isPlain u = true) {x : JsString} (rest : Clean x) : Clean (u :: x) :=
  (clean_unit visible plain).append rest

theorem clean_ascii {x : JsString} (h : ∀ u ∈ x, 0x20 ≤ u.toNat ∧ u.toNat < 128) : Clean x := by
  induction x with
  | nil => exact clean_nil
  | cons u x ih =>
    have first := h u List.mem_cons_self
    exact .cons first.1 (isPlain_small first.2) (ih fun w mem => h w (List.mem_cons_of_mem _ mem))

theorem clean_quoteUnit (u : UInt16) : Clean (quoteUnit u) := by
  have short : ∀ e ∈ shortEscapes, 0x20 ≤ e.2.toNat ∧ e.2.toNat < 128 := forall_members (by decide)
  rw [quoteUnit]
  split
  next key letter found =>
    have ascii := short _ (List.mem_of_find?_eq_some found)
    refine clean_ascii fun w mem => ?_
    simp only [List.mem_cons, List.not_mem_nil, or_false] at mem
    rcases mem with rfl | rfl
    · decide
    · exact ascii
  · split
    · have digit : ∀ n < 16, 0x20 ≤ (lowerHex n).toNat ∧ (lowerHex n).toNat < 128 := by decide
      have bound := u.toNat_lt
      refine clean_ascii fun w mem => ?_
      simp only [unicodeEscape, List.mem_cons, List.not_mem_nil, or_false] at mem
      rcases mem with rfl | rfl | rfl | rfl | rfl | rfl
      · decide
      · decide
      · exact digit _ (by omega)
      · exact digit _ (by omega)
      · exact digit _ (by omega)
      · exact digit _ (by omega)
    next plain =>
      simp only [Bool.or_eq_true, decide_eq_true_eq, not_or, Bool.not_eq_true] at plain
      refine clean_unit (by omega) ?_
      rw [isPlain, plain.1.2, plain.2]
      rfl

theorem clean_quote (s : JsString) : Clean (quote s) := by
  have units : Clean (quoteUnits s) := by
    fun_induction quoteUnits s with
    | case1 => exact clean_nil
    | case2 u => exact clean_quoteUnit u
    | case3 u v rest pair ih =>
      have high := (Bool.and_eq_true_iff.mp pair).1
      have low := (Bool.and_eq_true_iff.mp pair).2
      have both : Clean [u, v] := by
        refine ⟨fun w mem => ?_, fun t h => ?_⟩
        · simp only [isHighSurrogate, isLowSurrogate, Bool.and_eq_true, decide_eq_true_eq] at high low
          simp only [List.mem_cons, List.not_mem_nil, or_false] at mem
          rcases mem with rfl | rfl <;> omega
        · rw [List.cons_append, List.cons_append, List.nil_append, codePoints.eq_def]
          simpa [high, low] using h
      exact both.append ih
    | case4 u v rest apart ih => exact (clean_quoteUnit u).append ih
  exact .cons (by decide) (by decide) (units.append (clean_unit (by decide) (by decide)))

theorem numberUnit_visible {u : UInt16} (h : isNumberUnit u = true) : 33 ≤ u.toNat ∧ u.toNat ≤ 126 := by
  simp only [isNumberUnit, isDigit, Bool.or_eq_true, Bool.and_eq_true, decide_eq_true_eq, UInt16.le_iff_toNat_le,
    List.mem_cons, List.not_mem_nil, or_false] at h
  have zero : (unit '0').toNat = 48 := rfl
  have nine : (unit '9').toNat = 57 := rfl
  rcases h with ⟨low, high⟩ | rfl | rfl | rfl | rfl | rfl
  · omega
  all_goals decide

mutual

theorem clean_stringify (v : Json N) : Clean (stringify format v) := by
  match v with
  | .null => exact clean_ascii (x := text "null") (forall_members (by decide))
  | .bool true => exact clean_ascii (x := text "true") (forall_members (by decide))
  | .bool false => exact clean_ascii (x := text "false") (forall_members (by decide))
  | .number n =>
    refine clean_ascii fun u mem => ?_
    have visible := numberUnit_visible (List.all_eq_true.mp (format.units n) u mem)
    omega
  | .string s => exact clean_quote s
  | .array items => exact .cons (by decide) (by decide) ((clean_items items).append (clean_unit (by decide) (by decide)))
  | .object entries => exact .cons (by decide) (by decide) ((clean_entries entries).append (clean_unit (by decide) (by decide)))

theorem clean_items (items : List (Json N)) : Clean (stringifyItems format items) := by
  match items with
  | [] => exact clean_nil
  | [v] => exact clean_stringify v
  | v :: w :: items => exact (clean_stringify v).append (.cons (by decide) (by decide) (clean_items (w :: items)))

theorem clean_entries (entries : List (JsString × Json N)) : Clean (stringifyEntries format entries) := by
  match entries with
  | [] => exact clean_nil
  | [(k, v)] => exact (clean_quote k).append (.cons (by decide) (by decide) (clean_stringify v))
  | (k, v) :: e :: entries =>
    exact (clean_quote k).append (.cons (by decide) (by decide)
      ((clean_stringify v).append (.cons (by decide) (by decide) (clean_entries (e :: entries)))))

end

theorem stringify_ends (v : Json N) :
    ∃ u rest front w, stringify format v = u :: rest ∧ isWhiteSpace u = false ∧
      stringify format v = front ++ [w] ∧ isWhiteSpace w = false := by
  cases v with
  | null => exact ⟨_, _, text "nul", unit 'l', rfl, by decide, rfl, by decide⟩
  | bool b =>
    cases b with
    | true => exact ⟨_, _, text "tru", unit 'e', rfl, by decide, rfl, by decide⟩
    | false => exact ⟨_, _, text "fals", unit 'e', rfl, by decide, rfl, by decide⟩
  | string s => exact ⟨_, _, _ :: _, _, rfl, by decide, rfl, by decide⟩
  | array items => exact ⟨_, _, _ :: _, _, rfl, by decide, rfl, by decide⟩
  | object entries => exact ⟨_, _, _ :: _, _, rfl, by decide, rfl, by decide⟩
  | number n =>
    have visible {w : UInt16} (mem : w ∈ format.text n) : isWhiteSpace w = false :=
      have range := numberUnit_visible (List.all_eq_true.mp (format.units n) w mem)
      isWhiteSpace_visible range.1 range.2
    obtain ⟨u, rest, shape, -⟩ := format.head n
    rcases List.eq_nil_or_concat (format.text n) with empty | ⟨front, w, last⟩
    · rw [shape] at empty
      cases empty
    · rw [List.concat_eq_append] at last
      exact ⟨u, rest, front, w, shape, visible (shape ▸ List.mem_cons_self), last, visible (last ▸ List.mem_append_right _ List.mem_cons_self)⟩

theorem trim_stringify (v : Json N) : trim (stringify format v) = stringify format v := by
  obtain ⟨u, rest, front, w, starts, first, ends, last⟩ := stringify_ends format v
  exact trim_eq_self starts first ends last

theorem stringify_ne_nil (v : Json N) : stringify format v ≠ [] := by
  obtain ⟨u, rest, shape, -⟩ := stringify_head format v
  rw [shape]
  exact List.cons_ne_nil _ _

theorem decode_stringify (v : Json N) : (Utf8.decode (octetsOf (stringify format v))).flatMap utf16 = stringify format v := by
  obtain ⟨cs, points⟩ := Option.isSome_iff_exists.mp ((clean_stringify format v).2 [] rfl)
  rw [List.append_nil] at points
  rw [octetsOf, Utf8.decode_encode, scalars_of_codePoints points, utf16_codePoints points]

theorem lineFeed_not_mem (v : Json N) : (10 : UInt8) ∉ octetsOf (stringify format v) := by
  refine not_mem_octetsOf (show (10 : UInt16).toNat < 128 by decide) fun mem => ?_
  exact absurd ((clean_stringify format v).1 _ mem) (by decide)

end Fluo.Js
