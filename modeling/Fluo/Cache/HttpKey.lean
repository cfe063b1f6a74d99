import Fluo.Lib.JsString
import Fluo.Lib.OrderedMap
import Fluo.Lib.Run
import Mathlib.Data.List.Perm.Basic

/-!
# Keys of cached GET responses

`CacheInterceptor` looks a GET response up under a text made of the request
path, the sorted query and the principal.
-/

namespace Fluo.Cache.HttpKey

open Fluo.Js Fluo.Code

/-- The value of a query parameter; repeated parameters arrive as an array. -/
inductive QueryValue
  | one (value : JsString)
  | many (values : List JsString)
  deriving DecidableEq, Repr

structure Principal where
  issuer : Option JsString
  subject : JsString
  deriving DecidableEq, Repr

structure Request where
  path : JsString
  query : List (JsString × Option QueryValue)
  principal : Option Principal
  deriving DecidableEq, Repr

inductive CacheKeyStrategy
  | route
  | routeAndQuery
  | custom (key : Request → Option JsString)

inductive CacheKeyDecoratorValue
  | text (key : JsString)
  | compute (key : Request → Option JsString)

/-- `localeCompare` of the host, whatever its collation. -/
abbrev Collation := JsString → JsString → Ordering

variable (localeCompare : Collation)

def sortedBy {α : Type} (name : α → JsString) (l : List α) : List α :=
  l.mergeSort fun a b => localeCompare (name a) (name b) ≠ .gt

def encodePair (key value : JsString) : Option JsString := do
  let key ← encodeURIComponent key
  let value ← encodeURIComponent value
  pure (key ++ unit '=' :: value)

def encodeEntry : JsString × QueryValue → Option JsString
  | (key, .many values) => do
    pure (join (unit '&') (← (sortedBy localeCompare id values).mapM (encodePair key)))
  | (key, .one value) => encodePair key value

/-- The entries whose value is not `undefined`. -/
def definedEntries (query : List (JsString × Option QueryValue)) : List (JsString × QueryValue) :=
  query.filterMap fun entry => entry.2.map (entry.1, ·)

def buildSortedQueryString (query : List (JsString × Option QueryValue)) : Option JsString := do
  pure (join (unit '&') (← (sortedBy localeCompare Prod.fst (definedEntries query)).mapM (encodeEntry localeCompare)))

/-- The text that names a principal; nothing for an anonymous request. -/
def principalSuffix : Option Principal → Option JsString
  | none => some []
  | some principal => do
    let issuer ← encodeURIComponent (principal.issuer.getD (text "unknown"))
    let subject ← encodeURIComponent principal.subject
    pure (text "|principal:" ++ issuer ++ unit ':' :: subject)

def appendPrincipalScope (key : JsString) (request : Request)
    (resolver : Option (Request → Option JsString)) : Option JsString :=
  match resolver with
  | some resolve =>
    match resolve request with
    | some scope => some (key ++ text "|principal:" ++ scope)
    | none => some key
  | none => (principalSuffix request.principal).map (key ++ ·)

def defaultCacheKey (strategy : CacheKeyStrategy) (resolver : Option (Request → Option JsString))
    (request : Request) : Option JsString :=
  match strategy with
  | .custom key => key request
  | .route => appendPrincipalScope request.path request resolver
  | .routeAndQuery => do
    let queryString ← buildSortedQueryString localeCompare request.query
    if queryString = [] then appendPrincipalScope request.path request resolver
    else appendPrincipalScope (request.path ++ unit '?' :: queryString) request resolver

def resolveCacheKeyValue (metadata : Option CacheKeyDecoratorValue) (strategy : CacheKeyStrategy)
    (resolver : Option (Request → Option JsString)) (request : Request) : Option JsString :=
  match metadata with
  | none => defaultCacheKey localeCompare strategy resolver request
  | some (.text key) => some key
  | some (.compute key) => key request

def CacheKeyStrategy.builtIn (queryAware : Bool) : CacheKeyStrategy := if queryAware then .routeAndQuery else .route

/-- The key of a request under a built-in strategy without key or principal functions. -/
def builtInKey (queryAware : Bool) (request : Request) : Option JsString :=
  resolveCacheKeyValue localeCompare none (.builtIn queryAware) none request

/-! ## What a key should tell apart -/

def QueryValue.values : QueryValue → List JsString
  | .one value => [value]
  | .many values => values

/-- The `name=value` parameters of a query. -/
def parameters (query : List (JsString × Option QueryValue)) : List (JsString × JsString) :=
  (definedEntries query).flatMap fun entry => entry.2.values.map (entry.1, ·)

/-- Two requests may share a cache entry: one path, one principal state and,
when the key is made of the query too, one query up to order. -/
structure Shares (queryAware : Bool) (a b : Request) : Prop where
  path : a.path = b.path
  principal : a.principal = b.principal
  query : queryAware = true → (parameters a.query).Perm (parameters b.query)

/-- The part of a key between path and principal. -/
def querySuffix (queryAware : Bool) (request : Request) : Option JsString :=
  if queryAware then
    (buildSortedQueryString localeCompare request.query).map fun text => if text = [] then [] else unit '?' :: text
  else some []

/-- The path of `b` spells out what follows the path in the key of `a`: its
query, or its principal with the query before it. -/
def Spells (queryAware : Bool) (a b : Request) : Prop :=
  ∃ query ∈ querySuffix localeCompare queryAware a, ∃ scope ∈ principalSuffix a.principal,
    querySuffix localeCompare queryAware b = some [] ∧
    ((query ≠ [] ∧ principalSuffix b.principal = some scope ∧ b.path = a.path ++ query) ∨
      (a.principal ≠ none ∧ b.principal = none ∧ b.path = a.path ++ query ++ scope))

/-- Two principals of one subject, one without issuer and one whose issuer is
the text that stands for a missing one. -/
def IssuerClash (p q : Principal) : Prop :=
  p.subject = q.subject ∧ p.issuer ≠ q.issuer ∧ p.issuer.getD (text "unknown") = q.issuer.getD (text "unknown")

/-- Requests that differ in such principals, with one path and query text. -/
def MissingIssuer (queryAware : Bool) (a b : Request) : Prop :=
  a.path = b.path ∧
    (∃ query ∈ querySuffix localeCompare queryAware a, querySuffix localeCompare queryAware b = some query) ∧
    ∃ p ∈ a.principal, ∃ q ∈ b.principal, IssuerClash p q ∧ (principalSuffix a.principal).isSome

/-! ## Reading a query back -/

theorem encodePair_some {key value t : JsString} (h : encodePair key value = some t) :
    ∃ k v, encodeURIComponent key = some k ∧ encodeURIComponent value = some v ∧ t = k ++ unit '=' :: v := by
  simp only [encodePair, Option.pure_def, Option.bind_eq_bind, Option.bind_eq_some_iff, Option.some.injEq] at h
  obtain ⟨k, hk, v, hv, rfl⟩ := h
  exact ⟨k, v, hk, hv, rfl⟩

theorem encodePair_injective {a b : JsString × JsString} {t : JsString} (ha : encodePair a.1 a.2 = some t)
    (hb : encodePair b.1 b.2 = some t) : a = b := by
  obtain ⟨k, v, hk, hv, rfl⟩ := encodePair_some ha
  obtain ⟨k', v', hk', hv', same⟩ := encodePair_some hb
  have equals {s t : JsString} (h : encodeURIComponent s = some t) : unit '=' ∉ t :=
    not_mem_encodeURIComponent h (by decide) (by decide) (by decide)
  obtain ⟨rfl, -, rfl⟩ := (List.append_cons_inj_of_notMem (equals hk) (equals hv)).mp same
  exact Prod.ext (encodeURIComponent_injective hk hk') (encodeURIComponent_injective hv hv')

/-- Separators of the key do not stand in an encoded pair. -/
theorem not_mem_encodePair {key value t : JsString} (h : encodePair key value = some t) {d : Char}
    (separator : d = '&' ∨ d = '?' ∨ d = '|') : unit d ∉ t := by
  obtain ⟨k, v, hk, hv, rfl⟩ := encodePair_some h
  have small : d.toNat < 128 := by rcases separator with rfl | rfl | rfl <;> decide
  have reserved : isUnreserved d = false := by rcases separator with rfl | rfl | rfl <;> decide
  have notPercent : d ≠ '%' := by rcases separator with rfl | rfl | rfl <;> decide
  have notEquals : unit d ≠ unit '=' := by rcases separator with rfl | rfl | rfl <;> decide
  simp only [List.mem_append, List.mem_cons, not_or]
  exact ⟨not_mem_encodeURIComponent hk small reserved notPercent, notEquals,
    not_mem_encodeURIComponent hv small reserved notPercent⟩

theorem encodePair_ne_nil {key value t : JsString} (h : encodePair key value = some t) : t ≠ [] := by
  obtain ⟨k, v, -, -, rfl⟩ := encodePair_some h
  simp

/-- The pairs of an entry in the order in which they are written. -/
def sortedPairs : JsString × QueryValue → List (JsString × JsString)
  | (key, .one value) => [(key, value)]
  | (key, .many values) => (sortedBy localeCompare id values).map (key, ·)

def sortedParameters (query : List (JsString × Option QueryValue)) : List (JsString × JsString) :=
  (sortedBy localeCompare Prod.fst (definedEntries query)).flatMap (sortedPairs localeCompare)

theorem sortedBy_perm {α : Type} (name : α → JsString) (l : List α) : (sortedBy localeCompare name l).Perm l :=
  List.mergeSort_perm _ _

theorem sortedPairs_perm (entry : JsString × QueryValue) :
    (sortedPairs localeCompare entry).Perm (entry.2.values.map (entry.1, ·)) := by
  obtain ⟨key, value⟩ := entry
  cases value with
  | one value => exact .refl _
  | many values => exact (sortedBy_perm localeCompare id values).map _

theorem sortedParameters_perm (query : List (JsString × Option QueryValue)) :
    (sortedParameters localeCompare query).Perm (parameters query) :=
  ((sortedBy_perm localeCompare Prod.fst (definedEntries query)).flatMap_right _).trans
    (List.Perm.flatMap_left _ fun entry _ => sortedPairs_perm localeCompare entry)

theorem encodeEntry_words {entry : JsString × QueryValue} {t : JsString}
    (h : encodeEntry localeCompare entry = some t) :
    (sortedPairs localeCompare entry).map (fun pair => encodePair pair.1 pair.2) = (words (unit '&') t).map some := by
  obtain ⟨key, value⟩ := entry
  cases value with
  | one value =>
    have single := words_word (not_mem_encodePair h (.inl rfl)) (encodePair_ne_nil h)
    rw [single]
    exact congrArg (fun x => [x]) h
  | many values =>
    simp only [encodeEntry, Option.pure_def, Option.bind_eq_bind, Option.bind_eq_some_iff, Option.some.injEq] at h
    obtain ⟨pieces, written, rfl⟩ := h
    have each := mapM_eq_some.mp written
    have wordly : ∀ x ∈ pieces, unit '&' ∉ x ∧ x ≠ [] := by
      intro x hx
      have inMap : some x ∈ (sortedBy localeCompare id values).map (encodePair key) := by
        rw [each]
        exact List.mem_map_of_mem hx
      obtain ⟨value, -, hv⟩ := List.mem_map.mp inMap
      exact ⟨not_mem_encodePair hv (.inl rfl), encodePair_ne_nil hv⟩
    rw [words_join_words wordly, ← each, sortedPairs, List.map_map]
    rfl

theorem buildSortedQueryString_words {query : List (JsString × Option QueryValue)} {t : JsString}
    (h : buildSortedQueryString localeCompare query = some t) :
    (sortedParameters localeCompare query).map (fun pair => encodePair pair.1 pair.2) =
      (words (unit '&') t).map some := by
  simp only [buildSortedQueryString, Option.pure_def, Option.bind_eq_bind, Option.bind_eq_some_iff,
    Option.some.injEq] at h
  obtain ⟨pieces, written, rfl⟩ := h
  have each := mapM_eq_some.mp written
  clear written
  rw [sortedParameters, words_join]
  generalize sortedBy localeCompare Prod.fst (definedEntries query) = entries at each
  induction entries generalizing pieces with
  | nil =>
    obtain rfl : pieces = [] := by simpa using each.symm
    rfl
  | cons entry entries ih =>
    obtain ⟨piece, pieces, rfl, head, tail⟩ := List.map_eq_cons_iff.mp each.symm
    rw [List.flatMap_cons, List.map_append, encodeEntry_words localeCompare head.symm,
      ih pieces tail.symm, List.flatMap_cons, List.map_append]

theorem buildSortedQueryString_perm {query query' : List (JsString × Option QueryValue)} {t : JsString}
    (h : buildSortedQueryString localeCompare query = some t)
    (h' : buildSortedQueryString localeCompare query' = some t) : (parameters query).Perm (parameters query') := by
  have same : sortedParameters localeCompare query = sortedParameters localeCompare query' :=
    map_some_injective (fun _ _ _ => encodePair_injective) (buildSortedQueryString_words localeCompare h)
      (buildSortedQueryString_words localeCompare h')
  have sorted := sortedParameters_perm localeCompare query
  rw [same] at sorted
  exact sorted.symm.trans (sortedParameters_perm localeCompare query')

theorem not_mem_buildSortedQueryString {query : List (JsString × Option QueryValue)} {t : JsString}
    (h : buildSortedQueryString localeCompare query = some t) {d : Char} (separator : d = '?' ∨ d = '|') :
    unit d ∉ t := by
  have notAmpersand : unit d ≠ unit '&' := by rcases separator with rfl | rfl <;> decide
  simp only [buildSortedQueryString, Option.pure_def, Option.bind_eq_bind, Option.bind_eq_some_iff,
    Option.some.injEq] at h
  obtain ⟨pieces, written, rfl⟩ := h
  intro mem
  rcases mem_join mem with e | ⟨piece, hpiece, mem⟩
  · exact notAmpersand e
  · have inMap : some piece ∈ (sortedBy localeCompare Prod.fst (definedEntries query)).map (encodeEntry localeCompare) := by
      rw [mapM_eq_some.mp written]
      exact List.mem_map_of_mem hpiece
    obtain ⟨⟨key, value⟩, -, entry⟩ := List.mem_map.mp inMap
    cases value with
    | one value => exact not_mem_encodePair entry (.inr separator) mem
    | many values =>
      simp only [encodeEntry, Option.pure_def, Option.bind_eq_bind, Option.bind_eq_some_iff,
        Option.some.injEq] at entry
      obtain ⟨pairs, paired, rfl⟩ := entry
      rcases mem_join mem with e | ⟨pair, hpair, mem⟩
      · exact notAmpersand e
      · have inPairs : some pair ∈ (sortedBy localeCompare id values).map (encodePair key) := by
          rw [mapM_eq_some.mp paired]
          exact List.mem_map_of_mem hpair
        obtain ⟨value, -, hv⟩ := List.mem_map.mp inPairs
        exact not_mem_encodePair hv (.inr separator) mem

/-! ## Taking a key apart -/

/-- A suffix is empty or goes on from its mark; no mark stands inside. -/
def Marked (mark : Char) (suffix : JsString) : Prop :=
  suffix = [] ∨ ∃ t, suffix = unit mark :: t ∧ unit '?' ∉ t ∧ unit '|' ∉ t

theorem querySuffix_marked {queryAware : Bool} {r : Request} {q : JsString}
    (h : querySuffix localeCompare queryAware r = some q) : Marked '?' q := by
  cases queryAware with
  | false =>
    cases h
    exact .inl rfl
  | true =>
    obtain ⟨t, built, rfl⟩ := Option.map_eq_some_iff.mp h
    by_cases empty : t = []
    · exact .inl (if_pos empty)
    · rw [if_neg empty]
      exact .inr ⟨t, rfl, not_mem_buildSortedQueryString localeCompare built (.inl rfl),
        not_mem_buildSortedQueryString localeCompare built (.inr rfl)⟩

theorem principalSuffix_some {principal : Principal} {p : JsString} (h : principalSuffix (some principal) = some p) :
    ∃ issuer subject, encodeURIComponent (principal.issuer.getD (text "unknown")) = some issuer ∧
      encodeURIComponent principal.subject = some subject ∧
      p = text "|principal:" ++ (issuer ++ unit ':' :: subject) := by
  simp only [principalSuffix, Option.pure_def, Option.bind_eq_bind, Option.bind_eq_some_iff, Option.some.injEq] at h
  obtain ⟨issuer, hi, subject, hs, rfl⟩ := h
  exact ⟨issuer, subject, hi, hs, by rw [List.append_assoc]⟩

theorem principalSuffix_marked {principal : Option Principal} {p : JsString} (h : principalSuffix principal = some p) :
    Marked '|' p := by
  cases principal with
  | none =>
    cases h
    exact .inl rfl
  | some principal =>
    obtain ⟨issuer, subject, hi, hs, rfl⟩ := principalSuffix_some h
    have clean {s t : JsString} (e : encodeURIComponent s = some t) : unit '?' ∉ t ∧ unit '|' ∉ t :=
      ⟨not_mem_encodeURIComponent e (by decide) (by decide) (by decide),
        not_mem_encodeURIComponent e (by decide) (by decide) (by decide)⟩
    have label : unit '?' ∉ text "principal:" ∧ unit '|' ∉ text "principal:" := by decide
    have colon : unit '?' ≠ unit ':' ∧ unit '|' ≠ unit ':' := by decide
    refine .inr ⟨text "principal:" ++ (issuer ++ unit ':' :: subject), rfl, ?_, ?_⟩
    · simp only [List.mem_append, List.mem_cons, not_or]
      exact ⟨label.1, (clean hi).1, colon.1, (clean hs).1⟩
    · simp only [List.mem_append, List.mem_cons, not_or]
      exact ⟨label.2, (clean hi).2, colon.2, (clean hs).2⟩

theorem principalSuffix_eq_nil {principal : Option Principal} (h : principalSuffix principal = some []) :
    principal = none := by
  cases principal with
  | none => rfl
  | some principal =>
    obtain ⟨issuer, subject, -, -, e⟩ := principalSuffix_some h
    cases e

/-- One suffix belongs to one principal, a missing issuer being `unknown`. -/
theorem principalSuffix_inj {p q : Principal} {t : JsString} (hp : principalSuffix (some p) = some t)
    (hq : principalSuffix (some q) = some t) :
    p.subject = q.subject ∧ p.issuer.getD (text "unknown") = q.issuer.getD (text "unknown") := by
  obtain ⟨issuer, subject, hi, hs, rfl⟩ := principalSuffix_some hp
  obtain ⟨issuer', subject', hi', hs', same⟩ := principalSuffix_some hq
  have noColon {s t : JsString} (e : encodeURIComponent s = some t) : unit ':' ∉ t :=
    not_mem_encodeURIComponent e (by decide) (by decide) (by decide)
  obtain ⟨rfl, -, rfl⟩ :=
    (List.append_cons_inj_of_notMem (noColon hi) (noColon hs)).mp (List.append_cancel_left same)
  exact ⟨encodeURIComponent_injective hs hs', encodeURIComponent_injective hi hi'⟩

theorem builtInKey_eq_some {queryAware : Bool} {r : Request} {k : JsString} :
    builtInKey localeCompare queryAware r = some k ↔
      ∃ q, querySuffix localeCompare queryAware r = some q ∧
        ∃ p, principalSuffix r.principal = some p ∧ k = r.path ++ (q ++ p) := by
  cases queryAware with
  | false =>
    constructor
    · intro key
      obtain ⟨p, hp, rfl⟩ := Option.map_eq_some_iff.mp key
      exact ⟨[], rfl, p, hp, rfl⟩
    · rintro ⟨q, none, p, hp, rfl⟩
      cases none
      exact Option.map_eq_some_iff.mpr ⟨p, hp, rfl⟩
  | true =>
    simp only [builtInKey, resolveCacheKeyValue, CacheKeyStrategy.builtIn, defaultCacheKey, appendPrincipalScope,
      if_true, querySuffix, Option.bind_eq_bind, Option.bind_eq_some_iff, Option.map_eq_some_iff]
    constructor
    · rintro ⟨t, built, key⟩
      by_cases empty : t = []
      · rw [if_pos empty] at key
        obtain ⟨p, hp, rfl⟩ := Option.map_eq_some_iff.mp key
        exact ⟨[], ⟨t, built, if_pos empty⟩, p, hp, rfl⟩
      · rw [if_neg empty] at key
        obtain ⟨p, hp, rfl⟩ := Option.map_eq_some_iff.mp key
        exact ⟨unit '?' :: t, ⟨t, built, if_neg empty⟩, p, hp, by simp⟩
    · rintro ⟨q, ⟨t, built, rfl⟩, p, hp, rfl⟩
      refine ⟨t, built, ?_⟩
      by_cases empty : t = []
      · rw [if_pos empty, if_pos empty, hp]
        rfl
      · rw [if_neg empty, if_neg empty, hp]
        simp

theorem Marked.query_clean {q : JsString} (h : Marked '?' q) : unit '|' ∉ q := by
  rcases h with rfl | ⟨t, rfl, -, clean⟩
  · exact List.not_mem_nil
  · simp only [List.mem_cons, not_or]
    exact ⟨by decide, clean⟩

theorem Marked.scope_clean {p : JsString} (h : Marked '|' p) : unit '?' ∉ p := by
  rcases h with rfl | ⟨t, rfl, clean, -⟩
  · exact List.not_mem_nil
  · simp only [List.mem_cons, not_or]
    exact ⟨by decide, clean⟩

/-- The principal part begins at the only bar after the path. -/
theorem scope_split {q p y p' : JsString} (hq : unit '|' ∉ q) (hp : Marked '|' p) (hp' : Marked '|' p')
    (notEmpty : p' ≠ []) (h : q ++ p = y ++ p') : q = y ∧ p = p' := by
  obtain ⟨t', rfl, -, -⟩ := hp'.resolve_left notEmpty
  rcases hp with rfl | ⟨t, rfl, -, clean⟩
  · have mem : unit '|' ∈ q := by
      rw [List.append_nil] at h
      simp [h]
    exact absurd mem hq
  · obtain ⟨rfl, -, rfl⟩ := (List.append_cons_inj_of_notMem hq clean).mp h
    exact ⟨rfl, rfl⟩

/-- How one suffix can end with another one: as a whole, without its query, or
without anything. -/
theorem suffix_cases {q p q' p' x : JsString} (hq : Marked '?' q) (hp : Marked '|' p) (hq' : Marked '?' q')
    (hp' : Marked '|' p') (h : q ++ p = x ++ (q' ++ p')) :
    (x = [] ∧ q = q' ∧ p = p') ∨ (q' = [] ∧ q ≠ [] ∧ p = p' ∧ x = q) ∨
      (q' = [] ∧ p' = [] ∧ p ≠ [] ∧ x = q ++ p) := by
  by_cases noQuery : q' = []
  · subst noQuery
    by_cases noScope' : p' = []
    · subst noScope'
      rw [List.append_nil, List.append_nil] at h
      by_cases noScope : p = []
      · subst noScope
        rw [List.append_nil] at h
        by_cases plain : q = []
        · exact .inl ⟨by rw [← h, plain], plain, rfl⟩
        · exact .inr (.inl ⟨rfl, plain, rfl, h.symm⟩)
      · exact .inr (.inr ⟨rfl, rfl, noScope, h.symm⟩)
    · obtain ⟨rfl, rfl⟩ := scope_split hq.query_clean hp hp' noScope' h
      by_cases plain : q = []
      · exact .inl ⟨plain, plain, rfl⟩
      · exact .inr (.inl ⟨rfl, plain, rfl, rfl⟩)
  · -- the question mark of the second text is the one that begins the first
    obtain ⟨t', rfl, -, -⟩ := hq'.resolve_left noQuery
    have marked : unit '?' ∈ q ++ p := by simp [h]
    obtain ⟨t, rfl, clean, -⟩ := hq.resolve_left fun plain => hp.scope_clean (by simpa [plain] using marked)
    have rest : unit '?' ∉ t ++ p := by
      simp only [List.mem_append, not_or]
      exact ⟨clean, hp.scope_clean⟩
    have first : [] ++ unit '?' :: (t ++ p) = x ++ unit '?' :: (t' ++ p') := h
    obtain ⟨rfl, -, -⟩ := (List.append_cons_inj_of_notMem List.not_mem_nil rest).mp first
    rw [List.nil_append] at h
    by_cases noScope' : p' = []
    · by_cases noScope : p = []
      · subst noScope noScope'
        rw [List.append_nil, List.append_nil] at h
        exact .inl ⟨rfl, h, rfl⟩
      · obtain ⟨-, rfl⟩ := scope_split hq'.query_clean hp' hp noScope h.symm
        exact absurd noScope' noScope
    · obtain ⟨same, rfl⟩ := scope_split hq.query_clean hp hp' noScope' h
      exact .inl ⟨rfl, same, rfl⟩

/-! ## When keys separate -/

/-- Requests whose suffixes agree share an entry unless a missing issuer and
the issuer `unknown` meet. -/
theorem shares_of_suffixes {queryAware : Bool} {a b : Request} {q p : JsString} (path : a.path = b.path)
    (qa : querySuffix localeCompare queryAware a = some q) (qb : querySuffix localeCompare queryAware b = some q)
    (pa : principalSuffix a.principal = some p) (pb : principalSuffix b.principal = some p)
    (issuers : ¬ MissingIssuer localeCompare queryAware a b) : Shares queryAware a b := by
  refine ⟨path, ?_, ?_⟩
  · cases ha : a.principal with
    | none =>
      rw [ha] at pa
      cases pa
      exact (principalSuffix_eq_nil pb).symm
    | some x =>
      cases hb : b.principal with
      | none =>
        rw [hb] at pb
        cases pb
        exact absurd (principalSuffix_eq_nil pa) (by simp [ha])
      | some y =>
        have agree := principalSuffix_inj (ha ▸ pa) (hb ▸ pb)
        by_cases issuer : x.issuer = y.issuer
        · obtain ⟨_, _⟩ := x
          obtain ⟨_, _⟩ := y
          obtain rfl := issuer
          obtain rfl := agree.1
          rfl
        · exact absurd ⟨path, ⟨q, qa, qb⟩, x, ha, y, hb, ⟨agree.1, issuer, agree.2⟩, by rw [pa]; rfl⟩ issuers
  · rintro rfl
    obtain ⟨t, built, shape⟩ := Option.map_eq_some_iff.mp qa
    obtain ⟨t', built', shape'⟩ := Option.map_eq_some_iff.mp qb
    have same : t = t' := by
      by_cases empty : t = [] <;> by_cases empty' : t' = []
      · rw [empty, empty']
      · rw [if_pos empty] at shape
        rw [if_neg empty', ← shape] at shape'
        cases shape'
      · rw [if_neg empty] at shape
        rw [if_pos empty', ← shape] at shape'
        cases shape'
      · rw [if_neg empty] at shape
        rw [if_neg empty', ← shape] at shape'
        exact (List.cons.inj shape').2.symm
    exact buildSortedQueryString_perm localeCompare built (same ▸ built')

theorem shares_of_longer {queryAware : Bool} {a b : Request} {q p q' p' x : JsString}
    (qa : querySuffix localeCompare queryAware a = some q) (pa : principalSuffix a.principal = some p)
    (qb : querySuffix localeCompare queryAware b = some q') (pb : principalSuffix b.principal = some p')
    (longer : b.path = a.path ++ x) (h : q ++ p = x ++ (q' ++ p'))
    (spells : ¬ Spells localeCompare queryAware a b) (issuers : ¬ MissingIssuer localeCompare queryAware a b) :
    Shares queryAware a b := by
  rcases suffix_cases (querySuffix_marked localeCompare qa) (principalSuffix_marked pa)
    (querySuffix_marked localeCompare qb) (principalSuffix_marked pb) h with
    ⟨rfl, rfl, rfl⟩ | ⟨rfl, query, rfl, rfl⟩ | ⟨rfl, rfl, scope, rfl⟩
  · exact shares_of_suffixes localeCompare (by rw [longer, List.append_nil]) qa qb pa pb issuers
  · exact absurd ⟨x, qa, p, pa, qb, .inl ⟨query, pb, longer⟩⟩ spells
  · have known : a.principal ≠ none := by
      intro anonymous
      rw [anonymous] at pa
      cases pa
      exact scope rfl
    rw [← List.append_assoc] at longer
    exact absurd ⟨q, qa, p, pa, qb, .inr ⟨known, principalSuffix_eq_nil pb, longer⟩⟩ spells

theorem Shares.symm {queryAware : Bool} {a b : Request} (h : Shares queryAware a b) : Shares queryAware b a :=
  ⟨h.path.symm, h.principal.symm, fun aware => (h.query aware).symm⟩

theorem MissingIssuer.symm {queryAware : Bool} {a b : Request} (h : MissingIssuer localeCompare queryAware a b) :
    MissingIssuer localeCompare queryAware b a := by
  obtain ⟨path, ⟨q, qa, qb⟩, x, ha, y, hb, ⟨subject, differ, same⟩, computed⟩ := h
  refine ⟨path.symm, ⟨q, qb, qa⟩, y, hb, x, ha, ⟨subject.symm, Ne.symm differ, same.symm⟩, ?_⟩
  have suffixes : principalSuffix a.principal = principalSuffix b.principal := by
    rw [ha, hb, principalSuffix, principalSuffix, subject, same]
  rwa [← suffixes]

/-- A path that spells out the suffix of the other key makes the keys equal. -/
theorem Spells.collides {queryAware : Bool} {a b : Request} (h : Spells localeCompare queryAware a b) :
    (∃ k, builtInKey localeCompare queryAware a = some k ∧ builtInKey localeCompare queryAware b = some k) ∧
      a.path ≠ b.path := by
  obtain ⟨q, qa, p, pa, qb, ⟨query, pb, longer⟩ | ⟨known, anonymous, longer⟩⟩ := h
  · refine ⟨⟨a.path ++ (q ++ p), (builtInKey_eq_some localeCompare).mpr ⟨q, qa, p, pa, rfl⟩,
      (builtInKey_eq_some localeCompare).mpr ⟨[], qb, p, pb, ?_⟩⟩, ?_⟩
    · rw [longer, List.nil_append, List.append_assoc]
    · intro same
      exact query (by simpa [same] using longer)
  · have pb : principalSuffix b.principal = some [] := by rw [anonymous, principalSuffix]
    refine ⟨⟨a.path ++ (q ++ p), (builtInKey_eq_some localeCompare).mpr ⟨q, qa, p, pa, rfl⟩,
      (builtInKey_eq_some localeCompare).mpr ⟨[], qb, [], pb, ?_⟩⟩, ?_⟩
    · rw [longer, List.append_nil, List.append_nil, List.append_assoc]
    · intro same
      have empty : q = [] ∧ p = [] := by simpa [same] using longer
      rw [empty.2] at pa
      exact known (principalSuffix_eq_nil pa)

theorem MissingIssuer.collides {queryAware : Bool} {a b : Request} (h : MissingIssuer localeCompare queryAware a b) :
    (∃ k, builtInKey localeCompare queryAware a = some k ∧ builtInKey localeCompare queryAware b = some k) ∧
      a.principal ≠ b.principal := by
  obtain ⟨path, ⟨q, qa, qb⟩, x, ha, y, hb, ⟨subject, differ, same⟩, computed⟩ := h
  obtain ⟨p, pa⟩ := Option.isSome_iff_exists.mp computed
  have pb : principalSuffix b.principal = some p := by
    rw [← pa, ha, hb, principalSuffix, principalSuffix, subject, same]
  refine ⟨⟨a.path ++ (q ++ p), (builtInKey_eq_some localeCompare).mpr ⟨q, qa, p, pa, rfl⟩,
    (builtInKey_eq_some localeCompare).mpr ⟨q, qb, p, pb, by rw [path]⟩⟩, ?_⟩
  intro equal
  rw [ha, hb] at equal
  exact differ (by rw [Option.some.inj equal])

/-- Two keys that are equal belong to requests that may share an entry, unless
a path spells a suffix out or a missing issuer is taken for `unknown`. -/
theorem shares_of_equal_keys {queryAware : Bool} {a b : Request} {k : JsString}
    (ka : builtInKey localeCompare queryAware a = some k) (kb : builtInKey localeCompare queryAware b = some k)
    (spells : ¬ Spells localeCompare queryAware a b) (spells' : ¬ Spells localeCompare queryAware b a)
    (issuers : ¬ MissingIssuer localeCompare queryAware a b) : Shares queryAware a b := by
  obtain ⟨q, qa, p, pa, rfl⟩ := (builtInKey_eq_some localeCompare).mp ka
  obtain ⟨q', qb, p', pb, same⟩ := (builtInKey_eq_some localeCompare).mp kb
  rcases List.append_eq_append_iff.mp same with ⟨x, longer, rest⟩ | ⟨x, longer, rest⟩
  · exact shares_of_longer localeCompare qa pa qb pb longer rest spells issuers
  · exact (shares_of_longer localeCompare qb pb qa pa longer rest spells'
      fun clash => issuers (clash.symm localeCompare)).symm

/-- Keys tell requests apart exactly when neither path spells out the suffix of
the other key and no missing issuer meets the issuer `unknown`. -/
theorem equal_keys_share_iff (queryAware : Bool) (a b : Request) :
    (∀ k, builtInKey localeCompare queryAware a = some k → builtInKey localeCompare queryAware b = some k →
      Shares queryAware a b) ↔
    ¬ (Spells localeCompare queryAware a b ∨ Spells localeCompare queryAware b a ∨
      MissingIssuer localeCompare queryAware a b) := by
  constructor
  · rintro separates (spells | spells | issuers)
    · obtain ⟨⟨k, ka, kb⟩, paths⟩ := spells.collides
      exact paths (separates k ka kb).path
    · obtain ⟨⟨k, kb, ka⟩, paths⟩ := spells.collides
      exact paths (separates k ka kb).path.symm
    · obtain ⟨⟨k, ka, kb⟩, principals⟩ := issuers.collides
      exact principals (separates k ka kb).principal
  · intro none k ka kb
    simp only [not_or] at none
    exact shares_of_equal_keys localeCompare ka kb none.1 none.2.1 none.2.2

theorem path_spells_principal :
    ∃ (order : Collation) (k : JsString) (a b : Request), builtInKey order false a = some k ∧
      builtInKey order false b = some k ∧ ¬ Shares false a b :=
  ⟨fun _ _ => .eq, text "/a|principal:i:s", ⟨text "/a", [], some ⟨some (text "i"), text "s"⟩⟩,
    ⟨text "/a|principal:i:s", [], none⟩, by decide, by decide, fun shares => absurd shares.path (by decide)⟩

/-! ## Answers from the cache -/

variable {V : Type}

/-- The cache of the GET handlers. An entry carries the request whose handler
produced it. -/
abbrev Entries (V : Type) := OrderedMap JsString (Request × V)

inductive Event (V : Type)
  | store (request : Request) (value : V)
  | drop (key : JsString)

def step (queryAware : Bool) (s : Entries V) : Event V → Option (Entries V)
  | .store request value =>
    (builtInKey localeCompare queryAware request).map fun key => s.set key (request, value)
  | .drop key => some (s.erase key)

/-- What `interceptGet` finds before it calls the handler. -/
def answer (queryAware : Bool) (s : Entries V) (request : Request) : Option (Request × V) :=
  (builtInKey localeCompare queryAware request).bind s.get

/-- Every entry is under the key of its request. -/
def Keyed (queryAware : Bool) (s : Entries V) : Prop :=
  ∀ key entry, s.get key = some entry → builtInKey localeCompare queryAware entry.1 = some key

end Fluo.Cache.HttpKey
