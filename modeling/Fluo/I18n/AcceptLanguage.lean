import Fluo.I18n.LocaleResolution

/-!
# The best supported range

The locale of a header is the one that its first range reaches, by descending
quality and then by position, among the ranges that reach any. A range of
quality zero is left out and shuts nothing out.
-/

namespace Fluo.I18n

open Js Code Http Preference

variable (host : CaseMapping) (supported : List I18nLocale)

/-! ## Ranges and parents -/

/-- The first supported locale that is written so in lower case. -/
def FirstSpelling (lowerCased : JsString) (locale : I18nLocale) : Prop :=
  host.toLowerCase locale = lowerCased ∧
    ∃ before after, supported = before ++ locale :: after ∧ ∀ other ∈ before, host.toLowerCase other ≠ lowerCased

def segments (range : JsString) : List JsString := (host.toLowerCase range).splitOn hyphen

/-- The first segments of a range, which are the range itself or one of its parents. -/
def ancestor (range : JsString) (count : Nat) : JsString := join hyphen ((segments host range).take count)

/-- The range is supported itself or, when bases may match, the longest of its
parents that is supported stands for it. -/
def Reaches (allowBase : Bool) (range : JsString) (locale : I18nLocale) : Prop :=
  ∃ count, 0 < count ∧ count ≤ (segments host range).length ∧
    (count = (segments host range).length ∨ allowBase = true) ∧
    FirstSpelling host supported (ancestor host range count) locale ∧
    ∀ longer, count < longer → longer ≤ (segments host range).length →
      ∀ other ∈ supported, host.toLowerCase other ≠ ancestor host range longer

variable {host supported}

theorem FirstSpelling.mem {lowerCased : JsString} {locale : I18nLocale}
    (h : FirstSpelling host supported lowerCased locale) : locale ∈ supported := by
  obtain ⟨-, before, after, rfl, -⟩ := h
  exact List.mem_append_right before List.mem_cons_self

theorem spellingOf_some {lowerCased : JsString} {locale : I18nLocale} :
    spellingOf host supported lowerCased = some locale ↔ FirstSpelling host supported lowerCased locale := by
  rw [spellingOf, List.find?_eq_some_iff_append, FirstSpelling]
  simp only [decide_eq_true_eq, Bool.not_eq_true', decide_eq_false_iff_not, ne_eq]

theorem spellingOf_none {lowerCased : JsString} :
    spellingOf host supported lowerCased = none ↔ ∀ other ∈ supported, host.toLowerCase other ≠ lowerCased := by
  rw [spellingOf, List.find?_eq_none]
  simp only [decide_eq_true_eq, ne_eq]

theorem segments_pos (range : JsString) : 0 < (segments host range).length :=
  List.length_pos_of_ne_nil (List.splitOn_ne_nil _ _)

theorem ancestor_all (range : JsString) : ancestor host range (segments host range).length = host.toLowerCase range := by
  rw [ancestor, List.take_length, segments, join_splitOn]

/-- The loop finds the longest supported parent that is shorter than what it starts with. -/
theorem supportedParent_some {locale : I18nLocale} (range : JsString) {n : Nat} (le : n ≤ (segments host range).length) :
    supportedParent host supported ((segments host range).take n).reverse = some locale ↔
      ∃ count, 0 < count ∧ count < n ∧ FirstSpelling host supported (ancestor host range count) locale ∧
        ∀ longer, count < longer → longer < n → ∀ other ∈ supported, host.toLowerCase other ≠ ancestor host range longer := by
  induction n with
  | zero =>
    rw [List.take_zero, List.reverse_nil, supportedParent]
    exact ⟨nofun, fun ⟨count, _, less, _⟩ => absurd less (Nat.not_lt_zero count)⟩
  | succ n ih =>
    have ih := ih (by omega)
    rw [List.take_succ_eq_append_getElem (by omega), List.reverse_append, List.reverse_singleton, List.singleton_append,
      supportedParent]
    split
    · next empty =>
      have zero : n = 0 := by
        rw [List.reverse_eq_nil_iff, List.take_eq_nil_iff] at empty
        have some_ : 0 < (segments host range).length := segments_pos range
        rcases empty with zero | none_
        · exact zero
        · rw [none_] at some_
          exact absurd some_ (Nat.lt_irrefl 0)
      exact ⟨nofun, fun ⟨count, pos, less, _⟩ => by omega⟩
    · next some_ =>
      have pos : 0 < n := by
        rcases Nat.eq_zero_or_pos n with rfl | pos
        · exact absurd rfl some_
        · exact pos
      rw [List.reverse_reverse]
      split
      · next parent found =>
        have spelled := spellingOf_some.mp found
        constructor
        · rintro same
          cases same
          exact ⟨n, pos, by omega, spelled, fun longer _ _ => by omega⟩
        · rintro ⟨count, -, less, spells, longest⟩
          have same : count = n := by
            by_contra differs
            exact longest n (by omega) (by omega) parent spelled.mem spelled.1
          rw [same, ← spellingOf_some] at spells
          exact found.symm.trans spells
      · next none_ =>
        have unsupported := spellingOf_none.mp none_
        rw [ih]
        constructor
        · rintro ⟨count, positive, less, spells, longest⟩
          refine ⟨count, positive, by omega, spells, fun longer more le => ?_⟩
          by_cases same : longer = n
          · exact same ▸ unsupported
          · exact longest longer more (by omega)
        · rintro ⟨count, positive, less, spells, longest⟩
          have differs : count ≠ n := by
            rintro rfl
            exact unsupported locale spells.mem spells.1
          exact ⟨count, positive, by omega, spells, fun longer more le => longest longer more (by omega)⟩

theorem normalizeSupportedLocale_some {range : JsString} {allowBase : Bool} {locale : I18nLocale}
    (configured : supported ≠ []) :
    normalizeSupportedLocale host range (some supported) allowBase = some locale ↔
      Reaches host supported allowBase range locale := by
  obtain ⟨first, others, rfl⟩ := List.exists_cons_of_ne_nil configured
  have parents : (host.toLowerCase range).splitOn hyphen =
      (segments host range).take (segments host range).length := List.take_length.symm
  have all : ancestor host range (segments host range).length = host.toLowerCase range := ancestor_all range
  simp only [normalizeSupportedLocale, resolveSupportedLocale]
  split
  · next exact_ found =>
    have spelled := spellingOf_some.mp found
    constructor
    · intro same
      cases same
      exact ⟨_, segments_pos range, Nat.le_refl _, .inl rfl, all.symm ▸ spelled, fun longer more le => by omega⟩
    · rintro ⟨count, -, le, -, spells, longest⟩
      have same : count = (segments host range).length := by
        by_contra differs
        exact longest _ (by omega) (Nat.le_refl _) exact_ spelled.mem (all.symm ▸ spelled.1)
      rw [same, all, ← spellingOf_some] at spells
      exact found.symm.trans spells
  · next none_ =>
    have unsupported := spellingOf_none.mp none_
    split
    · next exactOnly =>
      refine ⟨nofun, ?_⟩
      rintro ⟨count, -, -, rfl | base, spells, -⟩
      · exact absurd (spells.1.trans all) (unsupported locale spells.mem)
      · rw [base] at exactOnly
        cases exactOnly
    · next bases =>
      rw [parents, supportedParent_some range (Nat.le_refl _)]
      constructor
      · rintro ⟨count, pos, less, spells, longest⟩
        refine ⟨count, pos, less.le, .inr (by simpa using bases), spells, fun longer more le => ?_⟩
        by_cases same : longer = (segments host range).length
        · rw [same, all]
          exact unsupported
        · exact longest longer more (by omega)
      · rintro ⟨count, pos, le, -, spells, longest⟩
        have differs : count ≠ (segments host range).length := by
          rintro rfl
          exact unsupported locale spells.mem (spells.1.trans all)
        exact ⟨count, pos, by omega, spells, fun longer more less => longest longer more less.le⟩

/-! ## Elements of the header -/

/-- The elements of a header, in its order. -/
def headerElements (header : Option HeaderValue) : List JsString :=
  match rawHeader header with
  | none => []
  | some raw => raw.splitOn comma

def qualityOf (part : JsString) : Nat :=
  match listedRange part with
  | none => 0
  | some preference => preference.quality

variable (host supported)

/-- The element lists a range, with a quality above zero, that reaches a supported locale. -/
def Candidate (allowBase : Bool) (part : JsString) : Prop :=
  ∃ range quality, listedRange part = some ⟨range, quality⟩ ∧ 0 < quality ∧ range ≠ [asterisk] ∧
    ∃ locale, Reaches host supported allowBase range locale

variable {host supported}

def ListsWildcard (header : Option HeaderValue) : Prop :=
  ∃ part ∈ headerElements header, ∃ quality, listedRange part = some ⟨[asterisk], quality⟩ ∧ 0 < quality

def parsedElements (header : Option HeaderValue) : List IndexedPreference :=
  ((headerElements header).zipIdx.filterMap parseElement).mergeSort notAfter

theorem qualityParameter_iff {parameter : JsString} {quality : Nat} :
    qualityParameter parameter = some quality ↔ ∃ name value, (name = unit 'q' ∨ name = unit 'Q') ∧
      trim parameter = name :: equalsSign :: value ∧ parseQuality value = some quality := by
  unfold qualityParameter
  constructor
  · intro found
    split at found
    · next name sign value parts =>
      obtain ⟨⟨named, rfl⟩, parsed⟩ := Option.ite_none_right_eq_some.mp found
      exact ⟨name, value, named, parts, parsed⟩
    · cases found
  · rintro ⟨name, value, named, parts, parsed⟩
    rw [parts]
    exact (if_pos ⟨named, rfl⟩).trans parsed

theorem parseAcceptLanguageQuality_iff {parameters : List JsString} {quality : Nat} :
    parseAcceptLanguageQuality none parameters = some quality ↔
      parameters = [] ∧ quality = 1000 ∨ ∃ parameter, parameters = [parameter] ∧ qualityParameter parameter = some quality := by
  cases parameters with
  | nil => simp [parseAcceptLanguageQuality, eq_comm]
  | cons parameter rest =>
    cases found : qualityParameter parameter with
    | none => simp [parseAcceptLanguageQuality, found]
    | some value => cases rest <;> simp [parseAcceptLanguageQuality, found]

/-- An element lists `*` or a locale, alone or with one parameter, its quality. -/
theorem listedRange_iff {part range : JsString} {quality : Nat} :
    listedRange part = some ⟨range, quality⟩ ↔ (range = [asterisk] ∨ isValidLocale range = true) ∧
      (semicolon ∉ part ∧ trim part = range ∧ quality = 1000 ∨
        ∃ rawRange parameter, part = rawRange ++ semicolon :: parameter ∧ semicolon ∉ rawRange ∧ semicolon ∉ parameter ∧
          trim rawRange = range ∧ qualityParameter parameter = some quality) := by
  constructor
  · intro listed
    rw [listedRange] at listed
    have free (x : JsString) (mem : x ∈ part.splitOn semicolon) : semicolon ∉ x := not_mem_of_mem_splitOn mem
    have whole : join semicolon (part.splitOn semicolon) = part := join_splitOn part
    cases pieces : part.splitOn semicolon with
    | nil => exact absurd pieces (List.splitOn_ne_nil _ _)
    | cons rawRange parameters =>
      rw [pieces] at listed free whole
      obtain ⟨valid, listed⟩ := Option.ite_none_left_eq_some.mp listed
      obtain ⟨quality', parsed, same⟩ := Option.map_eq_some_iff.mp listed
      cases same
      obtain ⟨-, valid⟩ := not_or.mp valid
      refine ⟨?_, ?_⟩
      · by_cases any : trim rawRange = [asterisk]
        · exact .inl any
        · exact .inr (by simpa [any] using valid)
      · rcases parseAcceptLanguageQuality_iff.mp parsed with ⟨rfl, rfl⟩ | ⟨parameter, rfl, found⟩
        · obtain rfl : rawRange = part := whole
          exact .inl ⟨free _ List.mem_cons_self, rfl, rfl⟩
        · exact .inr ⟨rawRange, parameter, whole.symm, free _ List.mem_cons_self,
            free _ (List.mem_cons_of_mem _ List.mem_cons_self), rfl, found⟩
  · rintro ⟨valid, shape⟩
    have some_ : ¬ (range = [] ∨ range ≠ [asterisk] ∧ (!isValidLocale range) = true) := by
      rcases valid with rfl | valid
      · decide
      · rw [valid]
        rintro (rfl | ⟨-, invalid⟩)
        · exact absurd valid (by decide)
        · cases invalid
    rcases shape with ⟨free, rfl, rfl⟩ | ⟨rawRange, parameter, rfl, free, free', rfl, found⟩
    · rw [listedRange, List.splitOn_eq_singleton free]
      exact if_neg some_
    · rw [listedRange, List.splitOn_append_cons_self, List.splitOn_eq_singleton free, List.splitOn_eq_singleton free']
      have parsed := parseAcceptLanguageQuality_iff.mpr (.inr ⟨parameter, rfl, found⟩)
      dsimp only [List.singleton_append]
      rw [if_neg some_, parsed]
      rfl

theorem listedRange_blank {raw : JsString} (blank : trim raw = []) :
    raw.splitOn comma = [raw] ∧ listedRange raw = none := by
  obtain ⟨a, b, blankA, blankB, parts⟩ := exists_trim raw
  rw [blank, List.append_nil] at parts
  have white : ∀ u ∈ raw, isWhiteSpace u = true := by
    intro u mem
    rw [parts] at mem
    exact (List.mem_append.mp mem).elim (blankA u) (blankB u)
  have free {u : UInt16} (mark : isWhiteSpace u = false) : raw.splitOn u = [raw] := by
    refine List.splitOn_eq_singleton fun mem => ?_
    rw [white u mem] at mark
    cases mark
  refine ⟨free (by decide), ?_⟩
  rw [listedRange, free (by decide)]
  simp only [blank, true_or, if_true]

theorem mem_elements {header : Option HeaderValue} {x : IndexedPreference} :
    x ∈ parsedElements header ↔ ∃ part, (headerElements header)[x.index]? = some part ∧
      listedRange part = some x.preference ∧ 0 < x.preference.quality := by
  rw [parsedElements, List.mem_mergeSort, List.mem_filterMap]
  constructor
  · rintro ⟨⟨part, index⟩, mem, parsed⟩
    rw [parseElement] at parsed
    split at parsed
    · next preference listed =>
      split at parsed
      · next positive =>
        cases parsed
        exact ⟨part, List.mem_zipIdx_iff_getElem?.mp mem, listed, positive⟩
      · cases parsed
    · cases parsed
  · rintro ⟨part, at_, listed, positive⟩
    refine ⟨(part, x.index), List.mem_zipIdx_iff_getElem?.mpr at_, ?_⟩
    simp only [parseElement, listed, if_pos positive]

theorem parseLocalePreferences_eq (header : Option HeaderValue) :
    parseLocalePreferences header = (parsedElements header).map (·.preference) := by
  cases raw : rawHeader header with
  | none => simp only [parseLocalePreferences, parsedElements, headerElements, raw, List.zipIdx_nil, List.filterMap_nil,
      List.mergeSort_nil, List.map_nil]
  | some text =>
    simp only [parseLocalePreferences, parsedElements, headerElements, raw]
    split
    · next blank =>
      obtain ⟨whole, unlisted⟩ := listedRange_blank blank
      simp only [whole, List.zipIdx_singleton, List.filterMap_cons, parseElement, unlisted, List.filterMap_nil,
        List.mergeSort_nil, List.map_nil]
    · rfl

theorem parsedElements_ordered (header : Option HeaderValue) :
    (parsedElements header).Pairwise fun left right => notAfter left right = true := by
  refine List.pairwise_mergeSort (fun a b c first next => ?_) (fun a b => ?_) _
  · simp only [notAfter, Bool.or_eq_true, Bool.and_eq_true, decide_eq_true_eq] at first next ⊢
    omega
  · simp only [notAfter, Bool.or_eq_true, Bool.and_eq_true, decide_eq_true_eq]
    omega

/-! ## The choice -/

section

variable (host)

/-- What the loop of the selection does with one preference. -/
def reached (supportedLocales : Option (List I18nLocale)) (allowBase : Bool)
    (preference : AcceptLanguagePreferenceInternal) : Option I18nLocale :=
  if preference.locale = [asterisk] then none
  else normalizeSupportedLocale host preference.locale supportedLocales allowBase

end

theorem selectFrom_eq (defaultLocale : I18nLocale) (supportedLocales : Option (List I18nLocale))
    (options : AcceptLanguageLocalePolicyOptions) (preferences : List AcceptLanguagePreferenceInternal)
    (hasWildcard : Bool) :
    selectFrom host defaultLocale supportedLocales options hasWildcard preferences =
      match preferences.findSome? (reached host supportedLocales options.allowBaseLocaleMatch) with
      | some locale => some locale
      | none =>
        if hasWildcard = true ∨ ∃ preference ∈ preferences, preference.locale = [asterisk] then
          wildcardChoice host defaultLocale supportedLocales options
        else none := by
  induction preferences generalizing hasWildcard with
  | nil => cases hasWildcard <;> simp [selectFrom]
  | cons preference preferences ih =>
    rw [selectFrom, List.findSome?_cons, reached]
    split
    · next star =>
      rw [ih]
      simp [star]
    · next other =>
      cases normalizeSupportedLocale host preference.locale supportedLocales options.allowBaseLocaleMatch with
      | some locale => rfl
      | none =>
        rw [ih]
        simp [other]

theorem wildcardChoice_mem {defaultLocale locale : I18nLocale} {options : AcceptLanguageLocalePolicyOptions}
    (configured : supported ≠ []) (h : wildcardChoice host defaultLocale (some supported) options = some locale) :
    locale ∈ supported := by
  rw [wildcardChoice] at h
  split at h
  · cases h
  · split at h
    · cases h
    · split at h
      · cases h
      · obtain ⟨_, -, -, -, spelled, -⟩ := (normalizeSupportedLocale_some configured).mp h
        exact spelled.mem

/-- The chosen locale is reached by the best range of the header, and only
without one does the wildcard count. -/
theorem accept_language_best (host : CaseMapping) (header : Option HeaderValue) (first : I18nLocale)
    (others : List I18nLocale) (defaultLocale : I18nLocale) (options : AcceptLanguageLocalePolicyOptions) :
    let supported := first :: others
    let allowBase := options.allowBaseLocaleMatch
    let chosen := selectLocaleFromAcceptLanguagePolicy host defaultLocale (some supported) options
      (parseLocalePreferences header)
    (∀ locale, chosen = some locale → locale ∈ supported) ∧
    ∃ best, Best (Candidate host supported allowBase) (fun part => OrderDual.toDual (qualityOf part))
        (headerElements header) best ∧
      (∀ part, best = some part → ∃ range quality locale, listedRange part = some ⟨range, quality⟩ ∧
        Reaches host supported allowBase range locale ∧ chosen = some locale) ∧
      (best = none → ListsWildcard header →
        chosen = wildcardChoice host defaultLocale (some supported) options) ∧
      (best = none → ¬ ListsWildcard header → chosen = none) := by
  intro supported allowBase chosen
  have configured : supported ≠ [] := List.cons_ne_nil first others
  have selected : chosen = _ := selectFrom_eq defaultLocale (some supported) options (parseLocalePreferences header) false
  rw [parseLocalePreferences_eq, List.findSome?_map] at selected
  have reaches {x : IndexedPreference} {locale : I18nLocale}
      (found : reached host (some supported) allowBase x.preference = some locale) :
      x.preference.locale ≠ [asterisk] ∧ Reaches host supported allowBase x.preference.locale locale := by
    rw [reached] at found
    split at found
    · cases found
    · next other => exact ⟨other, (normalizeSupportedLocale_some configured).mp found⟩
  -- an element that could be chosen is among the sorted ones and is not passed
  have candidate {j : Nat} {part : JsString} (at_ : (headerElements header)[j]? = some part)
      (holds : Candidate host supported allowBase part) :
      ∃ y ∈ parsedElements header, y.index = j ∧ y.preference.quality = qualityOf part ∧
        reached host (some supported) allowBase y.preference ≠ none := by
    obtain ⟨range, quality, listed, positive, other, locale, reach⟩ := holds
    refine ⟨⟨j, ⟨range, quality⟩⟩, mem_elements.mpr ⟨part, at_, listed, positive⟩, rfl, by rw [qualityOf, listed], ?_⟩
    rw [reached, if_neg other, (normalizeSupportedLocale_some configured).mpr reach]
    exact Option.some_ne_none locale
  cases found : (parsedElements header).findSome?
      (reached host (some supported) allowBase ∘ fun x => x.preference) with
  | some locale =>
    rw [found] at selected
    obtain ⟨before, x, after, sorted, takes, passed⟩ := List.findSome?_eq_some_iff.mp found
    have mem : x ∈ parsedElements header := by
      rw [sorted]
      exact List.mem_append_right before List.mem_cons_self
    obtain ⟨part, at_, listed, positive⟩ := mem_elements.mp mem
    obtain ⟨other, reach⟩ := reaches takes
    have quality : qualityOf part = x.preference.quality := by rw [qualityOf, listed]
    refine ⟨fun locale' same => ?_, some part, ⟨x.index, at_, ?_, fun j b atB holds differs => ?_⟩, ?_, fun none => (by cases none), fun none => (by cases none)⟩
    · cases selected.symm.trans same
      obtain ⟨_, -, -, -, spelled, -⟩ := reach
      exact spelled.mem
    · exact ⟨_, _, listed, positive, other, locale, reach⟩
    · obtain ⟨y, memY, rfl, qualityY, taken⟩ := candidate atB holds
      have order := parsedElements_ordered header
      rw [sorted] at memY order
      have behind : y ∈ after := by
        rcases List.mem_append.mp memY with early | rest
        · exact absurd (passed y early) taken
        · rcases List.mem_cons.mp rest with rfl | behind
          · exact absurd rfl differs
          · exact behind
      have le := (List.pairwise_cons.mp (List.pairwise_append.mp order).2.1).1 y behind
      simp only [notAfter, Bool.or_eq_true, Bool.and_eq_true, decide_eq_true_eq] at le
      simp only [Before, OrderDual.toDual_lt_toDual, OrderDual.toDual_inj, ← qualityY, quality]
      omega
    · rintro _ ⟨⟩
      exact ⟨_, _, locale, listed, reach, selected⟩
  | none =>
    rw [found] at selected
    have passed := List.findSome?_eq_none_iff.mp found
    have wild : (∃ preference ∈ (parsedElements header).map fun x => x.preference, preference.locale = [asterisk]) ↔
        ListsWildcard header := by
      constructor
      · rintro ⟨_, mem, star⟩
        obtain ⟨x, listedAt, rfl⟩ := List.mem_map.mp mem
        obtain ⟨part, at_, listed, positive⟩ := mem_elements.mp listedAt
        exact ⟨part, List.mem_of_getElem? at_, x.preference.quality, by rw [listed, ← star], positive⟩
      · rintro ⟨part, mem, quality, listed, positive⟩
        obtain ⟨i, at_⟩ := List.mem_iff_getElem?.mp mem
        have mem : (⟨i, ⟨[asterisk], quality⟩⟩ : IndexedPreference) ∈ parsedElements header :=
          mem_elements.mpr ⟨part, at_, listed, positive⟩
        exact ⟨_, List.mem_map_of_mem mem, rfl⟩
    simp only [Bool.false_eq_true, false_or] at selected
    refine ⟨fun locale same => ?_, none, fun part mem holds => ?_, fun _ some => (by cases some), fun _ listed => ?_, fun _ unlisted => ?_⟩
    · rw [same] at selected
      split at selected
      · exact wildcardChoice_mem configured selected.symm
      · cases selected
    · obtain ⟨i, at_⟩ := List.mem_iff_getElem?.mp mem
      obtain ⟨y, memY, -, -, taken⟩ := candidate at_ holds
      exact taken (passed y memY)
    · rw [selected, if_pos (wild.mpr listed)]
    · rw [selected, if_neg (mt wild.mp unlisted)]

/-- The header refuses `en` and still gets it, from the range of a region. -/
theorem refused_range_chosen :
    let header := HeaderValue.one (text "en;q=0, en-US")
    (∃ part ∈ headerElements (some header), listedRange part = some ⟨text "en", 0⟩) ∧
      selectLocaleFromAcceptLanguagePolicy .same (text "fr") (some [text "en", text "fr"]) {}
        (parseLocalePreferences (some header)) = some (text "en") := by
  have parsed : parseLocalePreferences (some (.one (text "en;q=0, en-US"))) = [⟨text "en-US", 1000⟩] := by
    have elements : ((headerElements (some (.one (text "en;q=0, en-US")))).zipIdx.filterMap parseElement) =
        [⟨1, ⟨text "en-US", 1000⟩⟩] := by decide
    rw [parseLocalePreferences_eq, parsedElements, elements, List.mergeSort_singleton, List.map_singleton]
  refine ⟨⟨text "en;q=0", by decide, by decide⟩, ?_⟩
  rw [parsed]
  decide

end Fluo.I18n
