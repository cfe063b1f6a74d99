import Mathlib.Algebra.Order.BigOperators.Group.List
import Mathlib.Algebra.Order.Group.Nat
import Fluo.Lib.FormUrlEncoded
import Fluo.Lib.PlainObject

/-!
# Query parameters

The query of a request as the Web adapter scans it and as the Node adapter takes it
from `URLSearchParams`. Both collect the pairs in a plain object.
-/

namespace Fluo.Runtime

open Js Code PlainObject

inductive ComponentKind where
  | key
  | value
  deriving DecidableEq, Repr

def decodeQueryComponentLikeUrlSearchParams (value : JsString) : ComponentKind → JsString
  | .key => ((urlSearchParams (value ++ text "=")).head?.map Prod.fst).getD []
  | .value => (((urlSearchParams (text "x=" ++ value)).find? fun p => p.1 = text "x").map Prod.snd).getD []

def decodeQueryComponent (value : JsString) (kind : ComponentKind) : JsString :=
  let normalizedValue := value.map plusUnit
  match decodeURIComponent normalizedValue with
  | some decoded => decoded
  | none => decodeQueryComponentLikeUrlSearchParams value kind

def addQueryEntry (query : Record JsString) (entry : JsString) : Record JsString :=
  if entry = [] then query
  else
    let separatorIndex := indexOf [unit '='] entry
    let rawKey := match separatorIndex with
      | none => entry
      | some i => entry.take i
    let rawValue := match separatorIndex with
      | none => []
      | some i => entry.drop (i + 1)
    query.append (decodeQueryComponent rawKey .key) (decodeQueryComponent rawValue .value)

/-- The entries up to the next ampersand, and the next one. -/
def scanQuery (query : Record JsString) (rest : JsString) : Record JsString :=
  match found : indexOf [unit '&'] rest with
  | none => addQueryEntry query rest
  | some i => scanQuery (addQueryEntry query (rest.take i)) (rest.drop (i + 1))
termination_by rest.length
decreasing_by
  obtain ⟨x, y, rfl, -⟩ := indexOf_some found
  simp only [List.length_drop, List.length_append, List.length_cons, List.length_nil]
  omega

def parseQueryString (search : JsString) : Record JsString :=
  if search.length ≤ 1 then .empty else scanQuery .empty (listOf search)

def parseQueryParams (searchParams : List (JsString × JsString)) : Record JsString :=
  searchParams.foldl (fun query entry => query.append entry.1 entry.2) .empty

def parseQueryParamsFromSearch (search : JsString) : Record JsString := parseQueryParams (urlSearchParams search)

/-! ## The scan -/

def scannedPair (entry : JsString) : JsString × JsString :=
  (decodeQueryComponent (entryParts entry).1 .key, decodeQueryComponent (entryParts entry).2 .value)

def standardPair (entry : JsString) : JsString × JsString :=
  (formComponent (entryParts entry).1, formComponent (entryParts entry).2)

theorem cut_parts {u : UInt16} {s : JsString} (mem : u ∈ s) :
    s.take (s.takeWhile (· ≠ u)).length = s.takeWhile (· ≠ u) ∧
      s.drop ((s.takeWhile (· ≠ u)).length + 1) = (s.dropWhile (· ≠ u)).drop 1 := by
  generalize first : s.takeWhile (· ≠ u) = x
  generalize second : (s.dropWhile (· ≠ u)).drop 1 = y
  have whole := takeWhile_cut mem
  rw [first, second] at whole
  rw [← whole, List.take_left' rfl, ← List.drop_drop, List.drop_left' rfl]
  exact ⟨rfl, rfl⟩

theorem addQueryEntry_eq (query : Record JsString) {entry : JsString} (some_ : entry ≠ []) :
    addQueryEntry query entry = query.append (scannedPair entry).1 (scannedPair entry).2 := by
  rw [addQueryEntry, if_neg some_, indexOf_unit, scannedPair, entryParts]
  by_cases mem : unit '=' ∈ entry
  · simp only [if_pos mem, cut_parts mem]
  · have all : ∀ x ∈ entry, decide (x ≠ unit '=') = true := by
      intro x inEntry
      refine decide_eq_true fun same => mem ?_
      rwa [same] at inEntry
    simp only [if_neg mem, List.takeWhile_eq_self_iff.mpr all, List.dropWhile_eq_nil_iff.mpr all, List.drop_nil]

theorem scanQuery_eq (query : Record JsString) (rest : JsString) :
    scanQuery query rest = query.appendAll ((words (unit '&') rest).map scannedPair) := by
  have one (query : Record JsString) {entry : JsString} (free : unit '&' ∉ entry) :
      addQueryEntry query entry = query.appendAll ((words (unit '&') entry).map scannedPair) := by
    by_cases empty : entry = []
    · simp [empty, addQueryEntry, Record.appendAll]
    · rw [addQueryEntry_eq query empty, words_word free empty]
      rfl
  fun_induction scanQuery query rest with
  | case1 query rest found =>
    rw [indexOf_unit] at found
    split at found
    · cases found
    next free => exact one query free
  | case2 query rest i found ih =>
    rw [indexOf_unit] at found
    split at found
    next mem =>
      obtain rfl := Option.some.inj found
      obtain ⟨takes, drops⟩ := cut_parts mem
      rw [ih, takes, drops, one query (not_mem_takeWhile _ rest)]
      conv_rhs => rw [← takeWhile_cut mem, words_append_cons, List.map_append, Record.appendAll, List.foldl_append]
      rfl
    · cases found

theorem parseQueryString_eq (search : JsString) :
    parseQueryString search =
      Record.empty.appendAll (if search.length ≤ 1 then [] else (words (unit '&') (listOf search)).map scannedPair) := by
  rw [parseQueryString]
  split
  · rfl
  · rw [scanQuery_eq]

theorem parseQueryParamsFromSearch_eq (search : JsString) :
    parseQueryParamsFromSearch search = Record.empty.appendAll ((words (unit '&') (listOf search)).map standardPair) := by
  rw [parseQueryParamsFromSearch, urlSearchParams_eq]
  rfl

/-! ## Components -/

theorem likeUrlSearchParams_value {value : JsString} (free : unit '&' ∉ value) :
    decodeQueryComponentLikeUrlSearchParams value .value = formComponent value := by
  have list : listOf (text "x=" ++ value) = text "x=" ++ value := rfl
  have word : unit '&' ∉ text "x=" ++ value := fun mem => (List.mem_append.mp mem).elim (by decide) free
  have parts : entryParts (text "x=" ++ value) = (text "x", value) := by
    simp [entryParts, text, List.takeWhile, List.dropWhile, unit]
  have name : formComponent (text "x") = text "x" := by decide
  rw [decodeQueryComponentLikeUrlSearchParams, urlSearchParams_eq, list, words_word word (List.cons_ne_nil _ _),
    List.map_singleton, parts]
  simp [name]

theorem entryParts_end {name : JsString} (free : unit '=' ∉ name) : entryParts (name ++ text "=") = (name, []) := by
  have all : ∀ x ∈ name, decide (x ≠ unit '=') = true := fun x mem =>
    decide_eq_true fun same => free (same ▸ mem)
  rw [entryParts, List.takeWhile_append_of_pos all, List.dropWhile_append_of_pos all]
  exact congrArg (·, []) (List.append_nil name)

/-- The fallback for a key leaves out a question mark in front of it. -/
theorem likeUrlSearchParams_key {value : JsString} (free : unit '&' ∉ value) (name : unit '=' ∉ value) :
    decodeQueryComponentLikeUrlSearchParams value .key = formComponent (listOf value) := by
  have list : listOf (value ++ text "=") = listOf value ++ text "=" := by
    cases value with
    | nil => rfl
    | cons u rest =>
      rw [List.cons_append, listOf, listOf]
      split <;> rfl
  have inside {u : UInt16} (mem : u ∈ listOf value) : u ∈ value := by
    cases value with
    | nil => cases mem
    | cons v rest =>
      rw [listOf] at mem
      split at mem
      · exact List.mem_cons_of_mem _ mem
      · exact mem
  have word : unit '&' ∉ listOf value ++ text "=" := fun mem =>
    (List.mem_append.mp mem).elim (fun early => free (inside early)) (by decide)
  rw [decodeQueryComponentLikeUrlSearchParams, urlSearchParams_eq, list,
    words_word word (List.append_ne_nil_of_right_ne_nil _ (List.cons_ne_nil _ _)), List.map_singleton,
    entryParts_end fun mem => name (inside mem)]
  rfl

/-- A component that the Web adapter decodes as the URL Standard does. -/
def Standard (kind : ComponentKind) (value : JsString) : Prop :=
  if decodeURIComponent (value.map plusUnit) = none then kind = .key → value.head? ≠ some (unit '?')
  else (codePoints value).isSome = true

theorem decodeQueryComponent_standard {kind : ComponentKind} {value : JsString} (free : unit '&' ∉ value)
    (name : kind = .key → unit '=' ∉ value) (h : Standard kind value) :
    decodeQueryComponent value kind = formComponent value := by
  rw [decodeQueryComponent]
  rw [Standard] at h
  cases decoded : decodeURIComponent (value.map plusUnit) with
  | some t =>
    rw [decoded] at h
    exact ((formComponent_decodeURIComponent decoded).mpr h).symm
  | none =>
    rw [if_pos decoded] at h
    cases kind with
    | value => exact likeUrlSearchParams_value free
    | key =>
      refine (likeUrlSearchParams_key free (name rfl)).trans (congrArg formComponent ?_)
      cases value with
      | nil => rfl
      | cons u rest => exact if_neg fun same => h rfl (congrArg some same)

theorem decodeQueryComponent_codePoints {kind : ComponentKind} {value : JsString} (free : unit '&' ∉ value)
    (name : kind = .key → unit '=' ∉ value) (h : ¬ Standard kind value)
    (paired : (codePoints (decodeQueryComponent value kind)).isSome = true) :
    kind = .key ∧ formComponent value = unit '?' :: decodeQueryComponent value kind := by
  rw [Standard] at h
  rw [decodeQueryComponent] at paired ⊢
  cases decoded : decodeURIComponent (value.map plusUnit) with
  | some t =>
    rw [decoded] at h paired
    obtain ⟨ct, points⟩ := Option.isSome_iff_exists.mp paired
    obtain ⟨cs, read⟩ := decodes_codePoints (decodeURIComponent_iff.mp decoded) points
    rw [codePoints_plus] at read
    obtain ⟨ds, read, -⟩ := Option.map_eq_some_iff.mp read
    exact absurd (by rw [read]; rfl) h
  | none =>
    rw [if_pos decoded] at h
    obtain ⟨rfl, begins⟩ := Classical.not_imp.mp h
    refine ⟨rfl, ?_⟩
    rw [Classical.not_not] at begins
    obtain ⟨rest, rfl⟩ : ∃ rest, value = unit '?' :: rest := by
      cases value with
      | nil => cases begins
      | cons u rest => exact ⟨rest, by rw [Option.some.inj begins]⟩
    have like := likeUrlSearchParams_key free (name rfl)
    rw [listOf, if_pos rfl] at like
    rw [formComponent_cons (by decide) (by decide) (by decide)]
    exact congrArg (unit '?' :: ·) like.symm

theorem entryParts_free {search entry : JsString} (mem : entry ∈ words (unit '&') search) :
    unit '&' ∉ (entryParts entry).1 ∧ unit '&' ∉ (entryParts entry).2 ∧ unit '=' ∉ (entryParts entry).1 := by
  have free := (words_mem mem).1
  refine ⟨fun inside => free (List.takeWhile_prefix _ |>.mem inside), fun inside => free ?_, not_mem_takeWhile _ _⟩
  exact (List.dropWhile_suffix _).mem (List.mem_of_mem_drop inside)

/-! ## Agreement -/

/-- A search string on which the adapters agree with the URL Standard: no name is
a property of `Object.prototype`, and the shortcuts of the Web adapter keep to it. -/
structure Plain (search : JsString) : Prop where
  names : ∀ p ∈ urlSearchParams search, p.1 ∉ objectNames
  single : search.length = 1 → search = text "?" ∨ search = text "&"
  keys : ∀ entry ∈ words (unit '&') (listOf search), Standard .key (entryParts entry).1
  values : ∀ entry ∈ words (unit '&') (listOf search), Standard .value (entryParts entry).2

theorem scannedPair_eq {search entry : JsString} (mem : entry ∈ words (unit '&') search)
    (key : Standard .key (entryParts entry).1) (value : Standard .value (entryParts entry).2) :
    scannedPair entry = standardPair entry := by
  obtain ⟨freeKey, freeValue, name⟩ := entryParts_free mem
  exact Prod.ext (decodeQueryComponent_standard freeKey (fun _ => name) key)
    (decodeQueryComponent_standard freeValue nofun value)

theorem Plain.parseQueryString_eq {search : JsString} (h : Plain search) :
    parseQueryString search = parseQueryParamsFromSearch search := by
  rw [Runtime.parseQueryString_eq, parseQueryParamsFromSearch_eq]
  congr 1
  split
  next short =>
    match search, h.single, short with
    | [], _, _ => rfl
    | [u], single, _ =>
      rcases single rfl with same | same
      · rw [same]
        rfl
      · rw [same]
        decide
  · exact List.map_congr_left fun entry mem => scannedPair_eq mem (h.keys entry mem) (h.values entry mem)

/-- The Web adapter's query groups the standard's pairs only by decoding each of
them as the standard does: a key that lost its question mark would be missed. -/
theorem standard_of_groups {search : JsString} (paired : ∀ entry ∈ words (unit '&') search,
      (codePoints (scannedPair entry).1).isSome = true ∧ (codePoints (scannedPair entry).2).isSome = true)
    (keys : (((words (unit '&') search).map scannedPair).map Prod.fst).Perm
      (((words (unit '&') search).map standardPair).map Prod.fst)) :
    ∀ entry ∈ words (unit '&') search, Standard .key (entryParts entry).1 ∧ Standard .value (entryParts entry).2 := by
  have shorter {entry : JsString} (mem : entry ∈ words (unit '&') search) (h : ¬ Standard .key (entryParts entry).1) :
      (scannedPair entry).1.length < (standardPair entry).1.length := by
    obtain ⟨freeKey, -, name⟩ := entryParts_free mem
    obtain ⟨-, longer⟩ := decodeQueryComponent_codePoints freeKey (fun _ => name) h (paired entry mem).1
    exact Nat.lt_of_lt_of_eq (Nat.lt_succ_self _) (congrArg List.length longer).symm
  intro entry mem
  obtain ⟨freeKey, freeValue, name⟩ := entryParts_free mem
  constructor
  · by_contra other
    have atMost : ∀ e ∈ words (unit '&') search, (scannedPair e).1.length ≤ (standardPair e).1.length := by
      intro e member
      by_cases h : Standard .key (entryParts e).1
      · obtain ⟨free, -, noSign⟩ := entryParts_free member
        exact Nat.le_of_eq (congrArg List.length (decodeQueryComponent_standard free (fun _ => noSign) h))
      · exact Nat.le_of_lt (shorter member h)
    have less := List.sum_lt_sum _ _ atMost ⟨entry, mem, shorter mem other⟩
    have equal := (keys.map List.length).sum_eq
    simp only [List.map_map] at equal
    exact absurd equal (Nat.ne_of_lt less)
  · by_contra other
    have noKey : ComponentKind.value = .key :=
      (@decodeQueryComponent_codePoints .value _ freeValue nofun other (paired entry mem).2).1
    cases noKey

/-- The adapters agree with each other and with the URL Standard exactly on plain
searches. -/
theorem parseQuery_agrees_iff (search : JsString) :
    (parseQueryString search = parseQueryParamsFromSearch search ∧
      (parseQueryString search).Groups (urlSearchParams search) ∧
      (parseQueryParamsFromSearch search).Groups (urlSearchParams search)) ↔ Plain search := by
  have standard : parseQueryParamsFromSearch search = Record.empty.appendAll (urlSearchParams search) := rfl
  constructor
  · rintro ⟨same, web, node⟩
    have names := appendAll_groups_iff.mp (standard ▸ node)
    have own : (parseQueryString search).proto = none := by
      rw [same, standard]
      exact appendAll_proto (fun p mem eq => names p mem (eq ▸ List.mem_cons_self)) _
    rw [parseQueryString_eq] at own web
    have values := groups_valuesOf own web
    rw [urlSearchParams_eq] at values
    by_cases short : search.length ≤ 1
    · rw [if_pos short] at values
      have none_ : words (unit '&') (listOf search) = [] := by
        cases entries : words (unit '&') (listOf search) with
        | nil => rfl
        | cons entry rest =>
          rw [entries] at values
          exact absurd (values _).symm (valuesOf_ne_nil List.mem_cons_self)
      refine ⟨names, fun one => ?_, by rw [none_]; exact nofun, by rw [none_]; exact nofun⟩
      obtain ⟨u, rfl⟩ := List.length_eq_one_iff.mp one
      by_cases question : u = unit '?'
      · exact .inl (question ▸ rfl)
      · rw [listOf, if_neg question] at none_
        by_cases ampersand : unit '&' = u
        · exact .inr (ampersand ▸ rfl)
        · rw [words_word (by simpa using ampersand) (List.cons_ne_nil _ _)] at none_
          cases none_
    · rw [if_neg short] at values
      have keys : (((words (unit '&') (listOf search)).map scannedPair).map Prod.fst).Perm
          (((words (unit '&') (listOf search)).map standardPair).map Prod.fst) := by
        rw [List.perm_iff_count]
        intro name
        rw [← valuesOf_length, ← valuesOf_length, values name]
        rfl
      have all := standard_of_groups (fun entry mem => ?_) keys
      · exact ⟨names, fun one => absurd (Nat.le_of_eq one) short, fun entry mem => (all entry mem).1,
          fun entry mem => (all entry mem).2⟩
      · have scanned : (scannedPair entry).2 ∈ valuesOf (scannedPair entry).1
            ((words (unit '&') (listOf search)).map scannedPair) :=
          mem_valuesOf.mpr (List.mem_map_of_mem mem)
        rw [values] at scanned
        obtain ⟨other, -, pair⟩ := List.mem_map.mp (mem_valuesOf.mp scanned)
        rw [← congrArg Prod.fst pair, ← congrArg Prod.snd pair]
        exact ⟨formComponent_codePoints _, formComponent_codePoints _⟩
  · intro plain
    have groups : (parseQueryParamsFromSearch search).Groups (urlSearchParams search) := appendAll_groups plain.names
    rw [plain.parseQueryString_eq]
    exact ⟨rfl, groups, groups⟩

/-- A question mark in front of a key with a malformed escape is lost. -/
theorem question_key_differs : parseQueryString (text "??%zz=1") ≠ parseQueryParamsFromSearch (text "??%zz=1") := by
  rw [parseQueryString_eq, parseQueryParamsFromSearch_eq]
  intro same
  have found := congrArg (fun r => r.own.get (text "?%zz")) same
  revert found
  decide +kernel

end Fluo.Runtime
