import Fluo.Http.Mapping
import Fluo.Lib.Preference
import Mathlib.Data.List.Lex

/-!
# Route matching by preference

What `match` finds through the index is the first choice in a plain list of the
routes: literal paths before placeholders, the version of the request before no
version, the method of the request before `ALL`, and then the order of
registration.
-/

namespace Fluo.Http

open Fluo.Js Fluo.Code Fluo.Preference

/-! ## The index -/

def routeSegments (d : HandlerDescriptor) : List RoutePathSegment := (pathSegments d.route.path).map segmentOf

def isStatic (d : HandlerDescriptor) : Bool := (routeSegments d).all RoutePathSegment.isLiteral

theorem lookup_pushTo {κ κ' α : Type} [DecidableEq κ] [DecidableEq κ'] (index : OrderedMap κ (OrderedMap κ' (List α)))
    (k : κ) (k' : κ') (a : α) (j : κ) (j' : κ') :
    (lookup (pushTo index k k' a) j j').getD [] =
      if j = k ∧ j' = k' then (lookup index j j').getD [] ++ [a] else (lookup index j j').getD [] := by
  rw [lookup, pushTo, OrderedMap.get_set]
  by_cases same : j = k
  · subst same
    rw [if_pos rfl, Option.bind_some, OrderedMap.get_set]
    by_cases same' : j' = k'
    · rw [if_pos same', if_pos ⟨rfl, same'⟩, same']
      rfl
    · rw [if_neg same', if_neg fun both => same' both.2, lookup]
      cases index.get j <;> rfl
  · rw [if_neg same, if_neg fun both => same both.1, lookup]

/-- The buckets of the index hold the descriptors in order. -/
structure Indexes (index : CompiledDescriptorIndex) (descriptors : List HandlerDescriptor) : Prop where
  static : ∀ method path, (lookup index.static method path).getD [] =
    descriptors.filter fun d => d.route.method = method && isStatic d && d.route.path = path
  param : ∀ method n, (lookup index.param method n).getD [] =
    (descriptors.filter fun d => d.route.method = method && !isStatic d && (routeSegments d).length = n).map
      fun d => ⟨d, routeSegments d⟩

theorem Indexes.step {index index' : CompiledDescriptorIndex} {descriptors : List HandlerDescriptor}
    {d : HandlerDescriptor} (h : Indexes index descriptors) (indexed : indexDescriptor index d = .ok index') :
    Indexes index' (descriptors ++ [d]) := by
  rw [indexDescriptor] at indexed
  cases parsed : parseRoutePath d.route.path (some (text "Registered " ++ d.route.method ++ text " route path")) with
  | error e =>
    rw [parsed] at indexed
    cases indexed
  | ok segments =>
    obtain rfl : segments = routeSegments d := parseRoutePath_ok parsed
    rw [parsed] at indexed
    change (if isStatic d then pure _ else pure _) = Except.ok index' at indexed
    cases static : isStatic d with
    | true =>
      rw [static] at indexed
      cases indexed
      refine ⟨fun method path => ?_, fun method n => ?_⟩
      · rw [lookup_pushTo, h.static, List.filter_append]
        by_cases own : method = d.route.method ∧ path = d.route.path
        · rw [if_pos own]
          simp [static, own.1, own.2]
        · rw [if_neg own]
          simp only [static, List.filter_cons, List.filter_nil, Bool.and_true]
          rw [if_neg, List.append_nil]
          intro both
          simp only [Bool.and_eq_true, decide_eq_true_eq] at both
          exact own ⟨both.1.symm, both.2.symm⟩
      · rw [List.filter_append, List.filter_cons, if_neg (by simp [static]), List.filter_nil, List.append_nil]
        exact h.param method n
    | false =>
      rw [static] at indexed
      cases indexed
      refine ⟨fun method path => ?_, fun method n => ?_⟩
      · rw [List.filter_append, List.filter_cons, if_neg (by simp [static]), List.filter_nil, List.append_nil]
        exact h.static method path
      · rw [lookup_pushTo, h.param, List.filter_append, List.map_append]
        by_cases own : method = d.route.method ∧ n = (routeSegments d).length
        · rw [if_pos own]
          simp [static, own.1, own.2]
        · rw [if_neg own]
          simp only [static, List.filter_cons, List.filter_nil, Bool.not_false, Bool.and_true]
          rw [if_neg, List.map_nil, List.append_nil]
          intro both
          simp only [Bool.and_eq_true, decide_eq_true_eq] at both
          exact own ⟨both.1.symm, both.2.symm⟩

theorem buildDescriptorIndex_indexes {descriptors : List HandlerDescriptor} {index : CompiledDescriptorIndex}
    (h : buildDescriptorIndex descriptors = .ok index) : Indexes index descriptors :=
  foldlM_invariant (I := fun done index => Indexes index done) h ⟨fun _ _ => rfl, fun _ _ => rfl⟩
    fun _ _ _ _ indexes one => indexes.step one

/-! ## Scans -/

def accepts (type : VersioningType) (requestVersion : Option JsString) (d : HandlerDescriptor) : Bool :=
  type = .uri || matchesRouteVersion d requestVersion

def fallsBack (d : HandlerDescriptor) : Bool := d.route.version = none

theorem selectMatch_eq (type : VersioningType) (requestVersion : Option JsString) (first : Option HandlerMatch)
    (l : List HandlerMatch) :
    selectMatch type requestVersion first l =
      (l.find? fun m => accepts type requestVersion m.descriptor).or
        (first.or (l.find? fun m => fallsBack m.descriptor)) := by
  induction l generalizing first with
  | nil =>
    rw [selectMatch]
    simp
  | cons m rest ih =>
    rw [selectMatch]
    by_cases uri : type = .uri
    · simp [uri, accepts]
    · rw [if_neg uri]
      by_cases matches_ : matchesRouteVersion m.descriptor requestVersion = true
      · simp [matches_, accepts]
      · have rejected : accepts type requestVersion m.descriptor = false := by simp [accepts, uri, matches_]
        rw [if_neg matches_, List.find?_cons, rejected, List.find?_cons]
        by_cases plain : m.descriptor.route.version = none
        · cases first with
          | none => simp [plain, fallsBack, ih]
          | some f => simp [plain, ih]
        · cases first with
          | none => simp [plain, fallsBack, ih]
          | some f => simp [plain, ih]

/-- Two buckets, of which the first comes first, are scanned for an exact match
and then for a fallback. -/
theorem scan_best {α ρ : Type} [LinearOrder ρ] {rank : α → ρ} {l : List α} {own all exact fallback : α → Bool}
    (exactFirst : ∀ a b, (own a = true ∨ all a = true) → exact a = true → (own b = true ∨ all b = true) →
      exact b = false → rank a < rank b)
    (ownFirst : ∀ a b, own a = true → own b = false → all b = true → exact a = exact b → rank a < rank b)
    (alike : ∀ a b, (own a = true ∧ own b = true ∨ all a = true ∧ all b = true) → exact a = exact b → rank a = rank b) :
    Best (fun a => (own a = true ∨ all a = true) ∧ (exact a = true ∨ fallback a = true)) rank l
      (((l.find? fun a => own a && exact a).or (l.find? fun a => all a && exact a)).or
        ((l.find? fun a => own a && fallback a).or (l.find? fun a => all a && fallback a))) := by
  have tier {e : α → Bool} (same : ∀ a ∈ l, ∀ b ∈ l, (own a = true ∨ all a = true) → e a = true →
      (own b = true ∨ all b = true) → e b = true → exact a = exact b) :
      Best (fun a => (own a && e a) = true ∨ (all a && e a) = true) rank l
        ((l.find? fun a => own a && e a).or (l.find? fun a => all a && e a)) := by
    refine (best_find fun a memA b memB holds holds' => ?_).or
      (fun _ => best_find fun a memA b memB holds holds' => ?_) fun a memA b memB holds notOwn holds' => ?_
    · simp only [Bool.and_eq_true] at holds holds'
      exact alike a b (.inl ⟨holds.1, holds'.1⟩) (same a memA b memB (.inl holds.1) holds.2 (.inl holds'.1) holds'.2)
    · simp only [Bool.and_eq_true] at holds holds'
      exact alike a b (.inr ⟨holds.1, holds'.1⟩) (same a memA b memB (.inr holds.1) holds.2 (.inr holds'.1) holds'.2)
    · simp only [Bool.and_eq_true] at holds holds'
      have other : own b = false := by simpa [holds'.2] using notOwn
      exact ownFirst a b holds.1 other holds'.1
        (same a memA b memB (.inl holds.1) holds.2 (.inr holds'.1) holds'.2)
  have either {e : α → Bool} (a : α) : ((own a && e a) = true ∨ (all a && e a) = true) ↔
      (own a = true ∨ all a = true) ∧ e a = true := by
    simp only [Bool.and_eq_true, or_and_right]
  have exacts := tier (e := exact) fun a _ b _ _ is _ is' => is.trans is'.symm
  have fallbacks (noExact : ∀ a ∈ l, ¬ ((own a && exact a) = true ∨ (all a && exact a) = true)) :
      Best (fun a => (own a && fallback a) = true ∨ (all a && fallback a) = true) rank l
        ((l.find? fun a => own a && fallback a).or (l.find? fun a => all a && fallback a)) := by
    -- none of the candidates at hand matches exactly
    have inexact {a : α} (mem : a ∈ l) (some_ : own a = true ∨ all a = true) : exact a = false :=
      Bool.eq_false_iff.mpr fun is => noExact a mem ((either a).mpr ⟨some_, is⟩)
    exact tier fun a memA b memB holds _ holds' _ => (inexact memA holds).trans (inexact memB holds').symm
  refine (exacts.or fallbacks fun a _ b _ holds notExact holds' => ?_).congr (fun a _ => ?_) fun _ _ _ => rfl
  · obtain ⟨some_, is⟩ := (either a).mp holds
    obtain ⟨some', -⟩ := (either b).mp holds'
    exact exactFirst a b some_ is some' (Bool.eq_false_iff.mpr fun is' => notExact ((either b).mpr ⟨some', is'⟩))
  · rw [either, either, and_or_left]

/-! ## What is preferred -/

section

variable (type : VersioningType) (requestVersion : Option JsString) (method : JsString)

/-- A route without a version, or with an empty one. -/
def Unversioned (d : HandlerDescriptor) : Prop := d.route.version = none ∨ d.route.version = some []

/-- The route is for the version of the request, or neither has one. -/
def Exact (d : HandlerDescriptor) : Prop :=
  match requestVersion with
  | none => Unversioned d
  | some version => d.route.version.map normalizeVersionValue = some version

/-- Versions in paths are matched with the paths. -/
def MatchesVersion (d : HandlerDescriptor) : Prop := type = .uri ∨ Exact requestVersion d ∨ Unversioned d

def SegmentMatches : RoutePathSegment → JsString → Prop
  | .literal value, segment => value = segment
  | .param _, _ => True

def MatchesPath (path : JsString) (d : HandlerDescriptor) : Prop :=
  List.Forall₂ SegmentMatches (routeSegments d) (pathSegments path)

instance (d : HandlerDescriptor) : Decidable (Unversioned d) := inferInstanceAs (Decidable (_ ∨ _))

instance (d : HandlerDescriptor) : Decidable (Exact requestVersion d) :=
  match requestVersion with
  | none => inferInstanceAs (Decidable (Unversioned d))
  | some version => inferInstanceAs (Decidable (d.route.version.map normalizeVersionValue = some version))

instance (d : HandlerDescriptor) : Decidable (MatchesVersion type requestVersion d) := inferInstanceAs (Decidable (_ ∨ _ ∨ _))

def pathRank (d : HandlerDescriptor) : Nat := if isStatic d then 0 else 1

def versionRank (d : HandlerDescriptor) : Nat := if type = .uri ∨ Exact requestVersion d then 0 else 1

/-- The method of the request, then `ALL`, then `GET` where it serves `HEAD`. -/
def methodRank (d : HandlerDescriptor) : Nat :=
  if d.route.method = method then 0 else if d.route.method = text "ALL" then 1 else 2

/-- With `headRouting` the order is applied within a method. -/
def rank (head : Bool) (d : HandlerDescriptor) : List Nat :=
  let path := pathRank d
  let version := versionRank type requestVersion d
  let own := methodRank method d
  if head then [own, path, version] else [path, version, own]

end

namespace HandlerMapping

variable (mapping : HandlerMapping) (host : CaseMapping) (request : FrameworkRequest)

/-- `HEAD` is served by `explicit-or-get`. -/
def head : Bool := host.toUpperCase request.method = text "HEAD" ∧ request.explicitOrGet = true

def MatchesMethod (d : HandlerDescriptor) : Prop :=
  d.route.method = host.toUpperCase request.method ∨ d.route.method = text "ALL" ∨
    head host request = true ∧ d.route.method = text "GET"

/-- The route is for the path, the method and the version of the request. -/
def Matches (d : HandlerDescriptor) : Prop :=
  MatchesMethod host request d ∧ MatchesPath request.path d ∧
    MatchesVersion mapping.versioning.type (mapping.requestVersion request) d

def routeRank (d : HandlerDescriptor) : List Nat :=
  rank mapping.versioning.type (mapping.requestVersion request) (host.toUpperCase request.method) (head host request) d

/-- The path segment at the last place of a parameter. -/
def boundTo (name : JsString) : List RoutePathSegment → List JsString → Option JsString
  | .param other :: segments, segment :: rest =>
    (boundTo name segments rest).or (if other = name then some segment else none)
  | .literal _ :: segments, _ :: rest => boundTo name segments rest
  | _, _ => none

/-- The result is the route that is preferred among all that match, with its
parameters bound to the segments of the path. -/
def Selects (result : Option HandlerMatch) : Prop :=
  Best (mapping.Matches host request) (mapping.routeRank host request) mapping.descriptors (result.map (·.descriptor)) ∧
    ∀ m, result = some m → ∀ name,
      m.params.get name = boundTo name (routeSegments m.descriptor) (pathSegments request.path)

end HandlerMapping

open HandlerMapping

/-! ## Candidates -/

/-- `matchParameterizedRoute` takes the route, and a static one of this path is found in the index. -/
def onPath (path : JsString) (d : HandlerDescriptor) : Bool :=
  (routeSegments d).length = (pathSegments path).length && literalsAgree (routeSegments d) (pathSegments path)

def toMatch (path : JsString) (d : HandlerDescriptor) : HandlerMatch :=
  ⟨d, bindParams OrderedMap.empty (routeSegments d) (pathSegments path)⟩

theorem onPath_iff {path : JsString} {d : HandlerDescriptor} : onPath path d = true ↔ MatchesPath path d := by
  rw [onPath, MatchesPath]
  generalize routeSegments d = segments
  generalize pathSegments path = incoming
  induction segments generalizing incoming with
  | nil => cases incoming <;> simp [literalsAgree]
  | cons segment segments ih =>
    cases incoming with
    | nil => simp
    | cons one rest =>
      rw [List.forall₂_cons, ← ih rest]
      cases segment <;> simp [literalsAgree, SegmentMatches]; tauto

instance (path : JsString) (d : HandlerDescriptor) : Decidable (MatchesPath path d) := decidable_of_iff _ onPath_iff

instance (host : CaseMapping) (request : FrameworkRequest) (d : HandlerDescriptor) :
    Decidable (MatchesMethod host request d) := inferInstanceAs (Decidable (_ ∨ _ ∨ _))

instance (mapping : HandlerMapping) (host : CaseMapping) (request : FrameworkRequest) (d : HandlerDescriptor) :
    Decidable (mapping.Matches host request d) := inferInstanceAs (Decidable (_ ∧ _ ∧ _))

theorem bindParams_static {segments : List RoutePathSegment} (static : segments.all RoutePathSegment.isLiteral = true)
    (params : OrderedMap JsString JsString) (incoming : List JsString) : bindParams params segments incoming = params := by
  induction segments generalizing incoming with
  | nil => rfl
  | cons segment segments ih =>
    rw [List.all_cons, Bool.and_eq_true] at static
    cases segment with
    | param name => cases static.1
    | literal value =>
      cases incoming with
      | nil => rfl
      | cons one rest => exact ih static.2 rest

theorem literal_segments {names : List JsString} (static : (names.map segmentOf).all RoutePathSegment.isLiteral = true)
    (incoming : List JsString) :
    names = incoming ↔ List.Forall₂ SegmentMatches (names.map segmentOf) incoming := by
  induction names generalizing incoming with
  | nil => cases incoming <;> simp
  | cons name names ih =>
    rw [List.map_cons, List.all_cons, Bool.and_eq_true] at static
    cases incoming with
    | nil => simp
    | cons one rest =>
      rw [List.map_cons, List.forall₂_cons, ← ih static.2 rest, List.cons.injEq]
      have literal : segmentOf name = .literal name := by
        rw [segmentOf] at static ⊢
        split
        · next placeholder =>
          rw [if_pos placeholder] at static
          cases static.1
        · rfl
      rw [literal, SegmentMatches]

/-- In the index a static route is found under its path. -/
theorem static_path {path : JsString} {d : HandlerDescriptor} (static : isStatic d = true)
    (normal : d.route.path = normalizeRoutePath d.route.path) :
    d.route.path = normalizeRoutePath path ↔ onPath path d = true := by
  rw [onPath_iff, MatchesPath, routeSegments, ← literal_segments static, ← normalizeRoutePath_inj, ← normal]

theorem createHandlerDescriptor_normal {source : HandlerSource} {type : VersioningType}
    {property : JsString × Option RouteMetadata} {d : HandlerDescriptor}
    (h : createHandlerDescriptor source type property = .ok (some d)) :
    d.route.path = normalizeRoutePath d.route.path := by
  have normal (path : JsString) : normalizeRoutePath path = normalizeRoutePath (normalizeRoutePath path) :=
    normalizeRoutePath_inj.mpr (pathSegments_normalizeRoutePath path).symm
  rw [createHandlerDescriptor] at h
  split at h
  · cases h
  · obtain ⟨pathParams, -, h⟩ := bind_eq_ok.mp h
    cases h
    dsimp only
    split
    · unfold applyVersionPrefix
      split <;> exact normal _
    · exact normal _

theorem buildDescriptorList_normal {sources : List HandlerSource} {type : VersioningType} {l : List HandlerDescriptor}
    (h : buildDescriptorList sources type = .ok l) : ∀ d ∈ l, d.route.path = normalizeRoutePath d.route.path := by
  obtain ⟨lists, built, h⟩ := bind_eq_ok.mp h
  obtain ⟨-, h⟩ := check_eq_ok.mp h
  cases h
  intro d mem
  obtain ⟨part, memPart, mem⟩ := List.mem_flatten.mp mem
  obtain ⟨source, -, created⟩ := exists_of_mem_mapM built memPart
  obtain ⟨some_, each, created⟩ := bind_eq_ok.mp created
  cases created
  obtain ⟨made, memMade, rfl⟩ := List.mem_filterMap.mp mem
  obtain ⟨property, -, one⟩ := exists_of_mem_mapM each memMade
  exact createHandlerDescriptor_normal one

/-- The routes of a method and a path, static or not. -/
def candidate (path method : JsString) (static : Bool) (d : HandlerDescriptor) : Bool :=
  d.route.method = method && isStatic d == static && onPath path d

/-- A scan of the routes in the order in which the two buckets are read. -/
def scan (type : VersioningType) (requestVersion : Option JsString) (own all : HandlerDescriptor → Bool)
    (l : List HandlerDescriptor) : Option HandlerDescriptor :=
  ((l.find? fun d => own d && accepts type requestVersion d).or (l.find? fun d => all d && accepts type requestVersion d)).or
    ((l.find? fun d => own d && fallsBack d).or (l.find? fun d => all d && fallsBack d))

theorem selectMatch_scan (type : VersioningType) (requestVersion : Option JsString) (path : JsString)
    (own all : HandlerDescriptor → Bool) (l : List HandlerDescriptor) :
    selectMatch type requestVersion none ((l.filter own ++ l.filter all).map (toMatch path)) =
      (scan type requestVersion own all l).map (toMatch path) := by
  rw [selectMatch_eq, Option.none_or, List.find?_map, List.find?_map, ← Option.map_or]
  congr 1
  simp only [List.find?_append, List.find?_filter, Bool.decide_and, Bool.decide_eq_true, scan]
  rfl

section

variable {mapping : HandlerMapping}

theorem static_bucket (indexes : Indexes mapping.descriptorIndex mapping.descriptors)
    (normal : ∀ d ∈ mapping.descriptors, d.route.path = normalizeRoutePath d.route.path) (method path : JsString) :
    ((lookup mapping.descriptorIndex.static method (normalizeRoutePath path)).getD []).map
        (fun d => (⟨d, OrderedMap.empty⟩ : HandlerMatch)) =
      (mapping.descriptors.filter (candidate path method true)).map (toMatch path) := by
  have same : ((lookup mapping.descriptorIndex.static method (normalizeRoutePath path)).getD []) =
      mapping.descriptors.filter (candidate path method true) := by
    rw [indexes.static]
    refine List.filter_congr fun d mem => ?_
    rw [candidate]
    cases static : isStatic d with
    | false => simp
    | true =>
      have found : d.route.path = normalizeRoutePath path ↔ onPath path d = true := static_path static (normal d mem)
      by_cases here : d.route.path = normalizeRoutePath path
      · simp [here, found.mp here]
      · have other : onPath path d = false := Bool.eq_false_iff.mpr fun on => here (found.mpr on)
        simp [here, other]
  rw [same]
  refine List.map_congr_left fun d mem => ?_
  have static : isStatic d = true := by
    have holds := (List.mem_filter.mp mem).2
    simp only [candidate, Bool.and_eq_true, beq_iff_eq] at holds
    exact holds.1.2
  rw [toMatch, bindParams_static static]

theorem param_bucket (indexes : Indexes mapping.descriptorIndex mapping.descriptors) (method path : JsString) :
    ((lookup mapping.descriptorIndex.param method (pathSegments path).length).getD []).filterMap (fun candidate =>
        (matchParameterizedRoute candidate (pathSegments path)).map fun params => (⟨candidate.descriptor, params⟩ : HandlerMatch)) =
      (mapping.descriptors.filter (candidate path method false)).map (toMatch path) := by
  rw [indexes.param, List.filterMap_map]
  induction mapping.descriptors with
  | nil => rfl
  | cons d rest ih =>
    have taken : (matchParameterizedRoute ⟨d, routeSegments d⟩ (pathSegments path)).map
        (fun params => (⟨d, params⟩ : HandlerMatch)) = if onPath path d then some (toMatch path d) else none := by
      rw [matchParameterizedRoute, onPath]
      by_cases long : (routeSegments d).length = (pathSegments path).length
      · by_cases agree : literalsAgree (routeSegments d) (pathSegments path) = true <;> simp [long, agree, toMatch]
      · simp [long]
    rw [List.filter_cons, List.filter_cons]
    cases onIt : onPath path d with
    | false =>
      rw [candidate, onIt, Bool.and_false]
      split
      · rw [List.filterMap_cons]
        simp only [Function.comp, taken, onIt, Bool.false_eq_true, if_false]
        exact ih
      · exact ih
    | true =>
      have long : (routeSegments d).length = (pathSegments path).length := by
        rw [onPath, Bool.and_eq_true, decide_eq_true_eq] at onIt
        exact onIt.1
      rw [candidate, onIt]
      by_cases holds : d.route.method = method ∧ isStatic d = false
      · rw [if_pos (by simp [holds.1, holds.2, long]), if_pos (by simp [holds.1, holds.2]), List.filterMap_cons]
        simp only [Function.comp, taken, onIt, if_true, List.map_cons]
        exact congrArg _ ih
      · rw [if_neg (by simpa [long] using holds), if_neg (by simpa using holds)]
        exact ih

theorem matchMethod_eq (indexes : Indexes mapping.descriptorIndex mapping.descriptors)
    (normal : ∀ d ∈ mapping.descriptors, d.route.path = normalizeRoutePath d.route.path) (method path : JsString)
    (requestVersion : Option JsString) (includeAll : Bool) :
    mapping.matchMethod method requestVersion (normalizeRoutePath path) includeAll =
      ((scan mapping.versioning.type requestVersion (candidate path method true)
          (fun d => includeAll && candidate path (text "ALL") true d) mapping.descriptors).or
        (scan mapping.versioning.type requestVersion (candidate path method false)
          (fun d => includeAll && candidate path (text "ALL") false d) mapping.descriptors)).map (toMatch path) := by
  have off (static : Bool) : (mapping.descriptors.filter fun d => false && candidate path (text "ALL") static d) = [] :=
    List.filter_eq_nil_iff.mpr fun d _ => Bool.false_ne_true
  have statics : findStaticMatch [lookup mapping.descriptorIndex.static method (normalizeRoutePath path),
      if includeAll then lookup mapping.descriptorIndex.static (text "ALL") (normalizeRoutePath path) else none]
      requestVersion mapping.versioning.type = (scan mapping.versioning.type requestVersion (candidate path method true)
        (fun d => includeAll && candidate path (text "ALL") true d) mapping.descriptors).map (toMatch path) := by
    rw [← selectMatch_scan, findStaticMatch, List.map_append, ← static_bucket indexes normal]
    congr 1
    rw [List.flatMap_cons, List.flatMap_cons, List.flatMap_nil, List.append_nil, List.map_append]
    congr 1
    cases includeAll with
    | true => exact static_bucket indexes normal (text "ALL") path
    | false => rw [off]; rfl
  rw [matchMethod, statics, pathSegments_normalizeRoutePath]
  cases scan mapping.versioning.type requestVersion (candidate path method true)
      (fun d => includeAll && candidate path (text "ALL") true d) mapping.descriptors with
  | some d => rfl
  | none =>
    rw [Option.map_none, Option.none_or, ← selectMatch_scan, List.map_append, ← param_bucket indexes]
    dsimp only
    rw [List.filterMap_append]
    congr 2
    cases includeAll with
    | true => exact param_bucket indexes (text "ALL") path
    | false => rw [off]; rfl

end

/-! ## Ranks -/

theorem matchesRouteVersion_iff {requestVersion : Option JsString} {d : HandlerDescriptor} (named : requestVersion ≠ some []) :
    matchesRouteVersion d requestVersion = true ↔ Exact requestVersion d := by
  unfold Exact
  cases requestVersion with
  | none =>
    unfold Unversioned matchesRouteVersion
    rcases d.route.version with _ | _ | ⟨u, version⟩ <;> simp
  | some version =>
    have notEmpty : version ≠ [] := fun empty => named (congrArg some empty)
    unfold matchesRouteVersion
    rcases d.route.version with _ | _ | ⟨u, own⟩
    · simp
    · simpa [normalizeVersionValue, trim, stripV] using Ne.symm notEmpty
    · simp [notEmpty]

theorem accepts_iff {type : VersioningType} {requestVersion : Option JsString} {d : HandlerDescriptor}
    (named : requestVersion ≠ some []) : accepts type requestVersion d = true ↔ type = .uri ∨ Exact requestVersion d := by
  rw [accepts, Bool.or_eq_true, decide_eq_true_eq, matchesRouteVersion_iff named]

/-- An unversioned route with an empty version, which is not remembered as a
fallback for a request with a version. -/
def Ignored (type : VersioningType) (requestVersion : Option JsString) (d : HandlerDescriptor) : Prop :=
  type ≠ .uri ∧ requestVersion ≠ none ∧ d.route.version = some []

instance (type : VersioningType) (requestVersion : Option JsString) (d : HandlerDescriptor) :
    Decidable (Ignored type requestVersion d) := inferInstanceAs (Decidable (_ ∧ _ ∧ _))

theorem selectable_iff {type : VersioningType} {requestVersion : Option JsString} {d : HandlerDescriptor}
    (named : requestVersion ≠ some []) :
    (accepts type requestVersion d = true ∨ fallsBack d = true) ↔
      MatchesVersion type requestVersion d ∧ ¬ Ignored type requestVersion d := by
  rw [accepts_iff named, MatchesVersion, Ignored, fallsBack, decide_eq_true_eq]
  by_cases uri : type = .uri
  · simp [uri]
  · simp only [uri, false_or, ne_eq, not_false_eq_true, true_and]
    cases requestVersion with
    | none =>
      simp only [Exact, Unversioned, or_self, not_true_eq_false, false_and, not_false_eq_true, and_true]
      exact ⟨fun either => either.elim id .inl, .inl⟩
    | some version =>
      have notEmpty : version ≠ [] := fun empty => named (congrArg some empty)
      simp only [Exact, Unversioned]
      rcases d.route.version with _ | _ | ⟨u, own⟩
      · simp
      · simpa [normalizeVersionValue, trim, stripV] using Ne.symm notEmpty
      · simp

section

variable {type : VersioningType} {requestVersion : Option JsString} {method : JsString} {head : Bool}

theorem rank_lt {a b : HandlerDescriptor} (grouped : head = true → methodRank method a = methodRank method b)
    (less : pathRank a < pathRank b ∨ pathRank a = pathRank b ∧
      (versionRank type requestVersion a < versionRank type requestVersion b ∨
        versionRank type requestVersion a = versionRank type requestVersion b ∧ methodRank method a < methodRank method b)) :
    rank type requestVersion method head a < rank type requestVersion method head b := by
  cases head with
  | false => simpa [rank, List.cons_lt_cons_iff] using less
  | true =>
    have same := grouped rfl
    have behind : ¬ methodRank method a < methodRank method b := fun less => Nat.lt_irrefl _ (same ▸ less)
    simpa [rank, List.cons_lt_cons_iff, same, behind] using less

theorem rank_eq {a b : HandlerDescriptor} (path : pathRank a = pathRank b)
    (version : versionRank type requestVersion a = versionRank type requestVersion b)
    (own : methodRank method a = methodRank method b) :
    rank type requestVersion method head a = rank type requestVersion method head b := by
  simp only [rank, path, version, own]

theorem rank_lt_of_method {a b : HandlerDescriptor} (less : methodRank method a < methodRank method b) :
    rank type requestVersion method true a < rank type requestVersion method true b :=
  List.cons_lt_cons_iff.mpr (.inl less)

theorem versionRank_of_accepts (named : requestVersion ≠ some []) (d : HandlerDescriptor) :
    versionRank type requestVersion d = if accepts type requestVersion d then 0 else 1 := by
  simp only [versionRank, accepts_iff named]

theorem candidate_iff {path own : JsString} {static : Bool} {d : HandlerDescriptor} :
    candidate path own static d = true ↔ d.route.method = own ∧ isStatic d = static ∧ MatchesPath path d := by
  rw [candidate, Bool.and_eq_true, Bool.and_eq_true, beq_iff_eq, decide_eq_true_eq, onPath_iff, and_assoc]

theorem part_best (named : requestVersion ≠ some []) (l : List HandlerDescriptor) (path own : JsString) (includeAll : Bool)
    (order : includeAll = true → head = false ∧ own = method) (static : Bool) :
    Best (fun d => (candidate path own static d = true ∨ (includeAll && candidate path (text "ALL") static d) = true) ∧
        (accepts type requestVersion d = true ∨ fallsBack d = true)) (rank type requestVersion method head) l
      (scan type requestVersion (candidate path own static) (fun d => includeAll && candidate path (text "ALL") static d) l) := by
  have side {d : HandlerDescriptor}
      (some_ : candidate path own static d = true ∨ (includeAll && candidate path (text "ALL") static d) = true) :
      isStatic d = static ∧ (head = true → d.route.method = own) := by
    rcases some_ with mine | all
    · obtain ⟨same, static, -⟩ := candidate_iff.mp mine
      exact ⟨static, fun _ => same⟩
    · obtain ⟨on, all⟩ := Bool.and_eq_true_iff.mp all
      obtain ⟨-, static, -⟩ := candidate_iff.mp all
      refine ⟨static, fun grouped => ?_⟩
      rw [(order on).1] at grouped
      cases grouped
  have grouped {a b : HandlerDescriptor}
      (someA : candidate path own static a = true ∨ (includeAll && candidate path (text "ALL") static a) = true)
      (someB : candidate path own static b = true ∨ (includeAll && candidate path (text "ALL") static b) = true)
      (on : head = true) : methodRank method a = methodRank method b := by
    rw [methodRank, methodRank, (side someA).2 on, (side someB).2 on]
  have paths {a b : HandlerDescriptor} (ha : isStatic a = static) (hb : isStatic b = static) : pathRank a = pathRank b := by
    rw [pathRank, pathRank, ha, hb]
  refine scan_best (fun a b someA is someB isNot => ?_) (fun a b mine notMine all same => ?_) fun a b both same => ?_
  · refine rank_lt (grouped someA someB) (.inr ⟨paths (side someA).1 (side someB).1, .inl ?_⟩)
    rw [versionRank_of_accepts named, versionRank_of_accepts named, is, isNot]
    decide
  · refine rank_lt (grouped (.inl mine) (.inr all)) (.inr ⟨paths (side (.inl mine)).1 (side (.inr all)).1, .inr ⟨?_, ?_⟩⟩)
    · rw [versionRank_of_accepts named, versionRank_of_accepts named, same]
    · obtain ⟨on, all⟩ := Bool.and_eq_true_iff.mp all
      obtain ⟨same, -⟩ := candidate_iff.mp mine
      obtain ⟨isAll, static, here⟩ := candidate_iff.mp all
      have other : b.route.method ≠ own := fun eq =>
        Bool.false_ne_true (notMine.symm.trans (candidate_iff.mpr ⟨eq, static, here⟩))
      rw [← (order on).2, methodRank, if_pos same, methodRank, if_neg other, if_pos isAll]
      decide
  · have sides : isStatic a = static ∧ isStatic b = static ∧ a.route.method = b.route.method := by
      rcases both with ⟨mine, mine'⟩ | ⟨all, all'⟩
      · obtain ⟨own, static, -⟩ := candidate_iff.mp mine
        obtain ⟨own', static', -⟩ := candidate_iff.mp mine'
        exact ⟨static, static', own.trans own'.symm⟩
      · obtain ⟨own, static, -⟩ := candidate_iff.mp (Bool.and_eq_true_iff.mp all).2
        obtain ⟨own', static', -⟩ := candidate_iff.mp (Bool.and_eq_true_iff.mp all').2
        exact ⟨static, static', own.trans own'.symm⟩
    refine rank_eq (paths sides.1 sides.2.1) ?_ ?_
    · rw [versionRank_of_accepts named, versionRank_of_accepts named, same]
    · rw [methodRank, methodRank, sides.2.2]

/-- What one method, or it and `ALL`, find for a path. -/
theorem parts_best (named : requestVersion ≠ some []) (l : List HandlerDescriptor) (path own : JsString)
    (includeAll : Bool) (order : includeAll = true → head = false ∧ own = method) :
    Best (fun d => (d.route.method = own ∨ includeAll = true ∧ d.route.method = text "ALL") ∧ MatchesPath path d ∧
        MatchesVersion type requestVersion d ∧ ¬ Ignored type requestVersion d) (rank type requestVersion method head) l
      ((scan type requestVersion (candidate path own true) (fun d => includeAll && candidate path (text "ALL") true d) l).or
        (scan type requestVersion (candidate path own false) (fun d => includeAll && candidate path (text "ALL") false d) l)) := by
  have either (static : Bool) (d : HandlerDescriptor) :
      (candidate path own static d = true ∨ (includeAll && candidate path (text "ALL") static d) = true) ↔
        (d.route.method = own ∨ includeAll = true ∧ d.route.method = text "ALL") ∧ isStatic d = static ∧ MatchesPath path d := by
    rw [Bool.and_eq_true, candidate_iff, candidate_iff, or_and_right, and_assoc]
  refine ((part_best named l path own includeAll order true).or (fun _ => part_best named l path own includeAll order false)
    fun a _ b _ holds _ holds' => ?_).congr (fun d _ => ?_) fun _ _ _ => rfl
  · obtain ⟨mineA, staticA, -⟩ := (either true a).mp holds.1
    obtain ⟨mineB, staticB, -⟩ := (either false b).mp holds'.1
    refine rank_lt (fun on => ?_) (.inl ?_)
    · have alone : includeAll = false := by
        cases all : includeAll with
        | false => rfl
        | true =>
          rw [(order all).1] at on
          cases on
      simp only [alone, Bool.false_eq_true, false_and, or_false] at mineA mineB
      rw [methodRank, methodRank, mineA, mineB]
    · rw [pathRank, pathRank, staticA, staticB]
      decide
  · rw [← selectable_iff named, either, either]
    cases isStatic d <;> simp [and_assoc]

end

/-! ## Parameters -/

theorem bindParams_get {name : JsString} (segments : List RoutePathSegment) (incoming : List JsString)
    (params : OrderedMap JsString JsString) :
    (bindParams params segments incoming).get name =
      if name = text "__proto__" then params.get name else (boundTo name segments incoming).or (params.get name) := by
  induction segments generalizing incoming params with
  | nil =>
    cases incoming <;> simp [bindParams, boundTo]
  | cons segment segments ih =>
    cases incoming with
    | nil => cases segment <;> simp [bindParams, boundTo]
    | cons one rest =>
      cases segment with
      | literal value => exact ih rest params
      | param other =>
        rw [bindParams, ih, boundTo, assign]
        by_cases proto : name = text "__proto__"
        · rw [if_pos proto, if_pos proto]
          split
          · rfl
          · next differs => rw [OrderedMap.get_set, if_neg fun same => differs (same.symm.trans proto)]
        · rw [if_neg proto, if_neg proto, Option.or_assoc]
          congr 1
          by_cases same : other = name
          · rw [if_pos same, if_neg fun isProto => proto (same.symm.trans isProto), same, OrderedMap.get_set_self]
            rfl
          · rw [if_neg same, Option.none_or]
            split
            · rfl
            · rw [OrderedMap.get_set, if_neg (Ne.symm same)]

/-- A parameter of a route that matches a path is bound. -/
theorem boundTo_isSome {name : JsString} {segments : List RoutePathSegment} {incoming : List JsString}
    (matches_ : List.Forall₂ SegmentMatches segments incoming) :
    (boundTo name segments incoming).isSome = true ↔ .param name ∈ segments := by
  induction matches_ with
  | nil => simp [boundTo]
  | @cons segment one segments rest _ _ ih =>
    cases segment with
    | literal value => simpa [boundTo] using ih
    | param other =>
      rw [boundTo, Option.isSome_or, Bool.or_eq_true, ih, List.mem_cons, RoutePathSegment.param.injEq]
      by_cases same : other = name
      · simp [same]
      · simp [same, Ne.symm same]

/-! ## The choice -/

namespace HandlerMapping

variable {mapping : HandlerMapping} {host : CaseMapping} {sources : List HandlerSource} {options : Option VersioningOptions}

theorem requestVersion_ne_nil (mapping : HandlerMapping) (request : FrameworkRequest) :
    mapping.requestVersion request ≠ some [] := by
  rw [requestVersion]
  split
  · exact nofun
  · exact fun empty => resolveRequestVersion_ne_nil empty rfl

/-- Of the routes that match, those with an empty version do not count for a
request with a version. -/
theorem matchRequest_best (h : createHandlerMapping host sources options = .ok mapping) (request : FrameworkRequest) :
    ∃ choice, mapping.matchRequest host request = choice.map (toMatch request.path) ∧
      Best (fun d => mapping.Matches host request d ∧
        ¬ Ignored mapping.versioning.type (mapping.requestVersion request) d) (mapping.routeRank host request)
        mapping.descriptors choice := by
  obtain ⟨descriptors, listed, h⟩ := bind_eq_ok.mp h
  obtain ⟨index, built, h⟩ := bind_eq_ok.mp h
  cases h
  let mapping : HandlerMapping := ⟨resolveVersioning host options, descriptors, index⟩
  have indexes : Indexes mapping.descriptorIndex mapping.descriptors := buildDescriptorIndex_indexes built
  have normal := buildDescriptorList_normal listed
  have named := mapping.requestVersion_ne_nil request
  change ∃ choice, mapping.matchRequest host request = _ ∧ Best (fun d => mapping.Matches host request d ∧ _)
    (mapping.routeRank host request) mapping.descriptors choice
  rw [matchRequest]
  by_cases heads : host.toUpperCase request.method = text "HEAD" ∧ request.explicitOrGet = true
  · have on : head host request = true := decide_eq_true heads
    rw [if_pos heads, matchMethod_eq indexes normal, matchMethod_eq indexes normal, matchMethod_eq indexes normal,
      ← Option.map_or, ← Option.map_or]
    refine ⟨_, rfl, ?_⟩
    have part (own : JsString) : Best (fun d => d.route.method = own ∧ MatchesPath request.path d ∧
        MatchesVersion mapping.versioning.type (mapping.requestVersion request) d ∧
          ¬ Ignored mapping.versioning.type (mapping.requestVersion request) d)
        (rank mapping.versioning.type (mapping.requestVersion request) (text "HEAD") true) mapping.descriptors _ :=
      (parts_best named mapping.descriptors request.path own false nofun).congr (fun d _ => by simp) fun _ _ _ => rfl
    refine (((part (text "HEAD")).or (fun _ => part (text "ALL")) fun a _ b _ holds _ holds' => ?_).or
      (fun _ => part (text "GET")) fun a _ b _ holds _ holds' => ?_).congr (fun d _ => ?_) fun d _ _ => ?_
    · refine rank_lt_of_method ?_
      rw [methodRank, methodRank, holds.1, holds'.1]
      decide
    · refine rank_lt_of_method ?_
      rcases holds with holds | holds
      · rw [methodRank, methodRank, holds.1, holds'.1]
        decide
      · rw [methodRank, methodRank, holds.1, holds'.1]
        decide
    · rw [Matches, MatchesMethod, on, heads.1]
      simp only [true_and, and_assoc]
      rw [← or_and_right, ← or_and_right, or_assoc]
    · rw [routeRank, on, heads.1]
  · have off : head host request = false := decide_eq_false heads
    rw [if_neg heads]
    refine ⟨_, matchMethod_eq indexes normal _ _ _ _, ?_⟩
    refine (parts_best named mapping.descriptors request.path _ true fun _ => ⟨rfl, rfl⟩).congr (fun d _ => ?_)
      fun d _ _ => ?_
    · rw [Matches, MatchesMethod, off]
      simp only [Bool.false_eq_true, false_and, or_false, true_and, and_assoc]
      exact Iff.rfl
    · rw [routeRank, off]

/-- The index goes wrong on an empty version where it is a fallback, and on a
parameter named `__proto__`. -/
def Affected (mapping : HandlerMapping) (request : FrameworkRequest) (d : HandlerDescriptor) : Prop :=
  Ignored mapping.versioning.type (mapping.requestVersion request) d ∨ .param (text "__proto__") ∈ routeSegments d

instance (mapping : HandlerMapping) (request : FrameworkRequest) (d : HandlerDescriptor) :
    Decidable (mapping.Affected request d) := inferInstanceAs (Decidable (_ ∨ _))

/-- Every matching route that the index goes wrong on is behind another one. -/
def Clear (mapping : HandlerMapping) (host : CaseMapping) (request : FrameworkRequest) : Prop :=
  ∀ i d, mapping.descriptors[i]? = some d → mapping.Matches host request d → mapping.Affected request d →
    ∃ j d', mapping.descriptors[j]? = some d' ∧ mapping.Matches host request d' ∧
      Before (mapping.routeRank host request) j d' i d

theorem clear_of_unaffected {request : FrameworkRequest} (h : ∀ d ∈ mapping.descriptors, ¬ mapping.Affected request d) :
    mapping.Clear host request :=
  fun _ d at_ _ affected => absurd affected (h d (List.mem_of_getElem? at_))

theorem exists_mem_of_mapM {ε α β : Type} {f : α → Except ε β} {l : List α} {m : List β} (h : l.mapM f = .ok m) {a : α}
    (mem : a ∈ l) : ∃ b ∈ m, f a = .ok b := by
  replace h := forall₂_of_mapM h
  induction h with
  | nil => cases mem
  | cons first _ ih =>
    rcases List.mem_cons.mp mem with rfl | mem
    · exact ⟨_, List.mem_cons_self, first⟩
    · obtain ⟨b, memB, made⟩ := ih mem
      exact ⟨b, List.mem_cons_of_mem _ memB, made⟩

/-- The registered routes are those that methods of the controllers declare. -/
theorem mem_descriptors (h : createHandlerMapping host sources options = .ok mapping) {d : HandlerDescriptor} :
    d ∈ mapping.descriptors ↔ ∃ source ∈ sources, ∃ property ∈ source.methods,
      createHandlerDescriptor source (resolveVersioning host options).type property = .ok (some d) := by
  obtain ⟨descriptors, built, h⟩ := bind_eq_ok.mp h
  obtain ⟨index, -, h⟩ := bind_eq_ok.mp h
  cases h
  obtain ⟨lists, made, built⟩ := bind_eq_ok.mp built
  obtain ⟨-, built⟩ := check_eq_ok.mp built
  cases built
  show d ∈ lists.flatten ↔ _
  rw [List.mem_flatten]
  constructor
  · rintro ⟨list, mem, inside⟩
    obtain ⟨source, known, each⟩ := exists_of_mem_mapM made mem
    obtain ⟨found, declared, each⟩ := bind_eq_ok.mp each
    cases each
    obtain ⟨one, there, same⟩ := List.mem_filterMap.mp inside
    cases same
    obtain ⟨property, own, creates⟩ := exists_of_mem_mapM declared there
    exact ⟨source, known, property, own, creates⟩
  · rintro ⟨source, known, property, own, creates⟩
    obtain ⟨list, mem, each⟩ := exists_mem_of_mapM made known
    obtain ⟨found, declared, each⟩ := bind_eq_ok.mp each
    cases each
    obtain ⟨one, there, same⟩ := exists_mem_of_mapM declared own
    rw [creates] at same
    cases same
    exact ⟨_, mem, List.mem_filterMap.mpr ⟨_, there, rfl⟩⟩

/-- `match` selects the preferred route exactly when that is not one it goes
wrong on. -/
theorem matchRequest_selects_iff (h : createHandlerMapping host sources options = .ok mapping)
    (request : FrameworkRequest) :
    mapping.Selects host request (mapping.matchRequest host request) ↔ mapping.Clear host request := by
  obtain ⟨choice, found, best⟩ := matchRequest_best h request
  rw [found]
  constructor
  · rintro ⟨selected, bound⟩ i d at_ matches_ affected
    rw [Option.map_map, show (fun m : HandlerMatch => m.descriptor) ∘ toMatch request.path = id from rfl, Option.map_id] at selected
    cases choice with
    | none => exact absurd matches_ (selected d (List.mem_of_getElem? at_))
    | some c =>
      obtain ⟨j, atC, matchesC, first⟩ := selected
      by_cases same : i = j
      · -- the choice itself would be affected
        subst same
        obtain rfl : c = d := Option.some.inj (atC.symm.trans at_)
        rcases affected with ignored | proto
        · obtain ⟨-, -, counts, -⟩ := best
          exact absurd ignored counts.2
        · have missing := bound _ rfl (text "__proto__")
          rw [toMatch, bindParams_get, if_pos rfl, OrderedMap.get_empty] at missing
          have isBound := (boundTo_isSome matches_.2.1).mpr proto
          rw [← missing] at isBound
          cases isBound
      · exact ⟨j, c, atC, matchesC, first i d at_ matches_ same⟩
  · intro clear
    obtain ⟨greatest, preferred⟩ := exists_best (mapping.Matches host request) (mapping.routeRank host request)
      mapping.descriptors
    have unaffected : ∀ d, greatest = some d → ¬ mapping.Affected request d := by
      rintro d rfl affected
      obtain ⟨i, at_, matches_, first⟩ := preferred
      obtain ⟨j, d', at', matches', before⟩ := clear i d at_ matches_ affected
      by_cases same : j = i
      · subst same
        obtain rfl : d = d' := Option.some.inj (at_.symm.trans at')
        exact before.irrefl
      · exact before.asymm (first j d' at' matches' same)
    have counted : Best (fun d => mapping.Matches host request d ∧
        ¬ Ignored mapping.versioning.type (mapping.requestVersion request) d) (mapping.routeRank host request)
        mapping.descriptors greatest := by
      cases greatest with
      | none => exact fun d mem both => preferred d mem both.1
      | some d =>
        obtain ⟨i, at_, matches_, first⟩ := preferred
        exact ⟨i, at_, ⟨matches_, fun ignored => unaffected d rfl (.inl ignored)⟩,
          fun j b atB both differs => first j b atB both.1 differs⟩
    obtain rfl := best.unique counted
    refine ⟨?_, ?_⟩
    · rw [Option.map_map, show (fun m : HandlerMatch => m.descriptor) ∘ toMatch request.path = id from rfl, Option.map_id]
      exact preferred
    · intro m is name
      obtain ⟨d, chosen, rfl⟩ := Option.map_eq_some_iff.mp is
      rw [toMatch, bindParams_get, OrderedMap.get_empty, Option.or_none]
      split
      · next proto =>
        -- it has no such parameter
        rw [chosen] at preferred
        obtain ⟨i, -, matches_, -⟩ := preferred
        cases isBound : boundTo name (routeSegments d) (pathSegments request.path) with
        | none => rfl
        | some segment =>
          have mem := (boundTo_isSome matches_.2.1).mp (by rw [isBound]; rfl)
          exact absurd (.inr (proto ▸ mem)) (unaffected d chosen)
      · rfl

/-! ## Two tables -/

/-- A host that maps the case of letters of the first 128 code units. -/
def asciiHost : CaseMapping :=
  let upper (u : UInt16) : UInt16 := if unit 'a' ≤ u && u ≤ unit 'z' then u - 32 else u
  let lower (u : UInt16) : UInt16 := if unit 'A' ≤ u && u ≤ unit 'Z' then u + 32 else u
  ⟨List.map upper, List.map lower, upper⟩

def usersController : HandlerSource :=
  ⟨0, some ⟨text "/users", none⟩,
    [(text "one", some ⟨text "GET", text "/:id", none⟩), (text "me", some ⟨text "GET", text "/me", none⟩),
      (text "any", some ⟨text "ALL", text "/me", some (text "v2")⟩), (text "plain", none)]⟩

def usersRequest : FrameworkRequest :=
  ⟨text "get", false, text "/users//me", [(text "X-Api-Version", some (.one (text " v2 ")))]⟩

/-- `ALL /users/me` of version 2 is selected, which goes before the routes of `GET`. -/
theorem users_selected : ∃ mapping : HandlerMapping,
    createHandlerMapping asciiHost [usersController] (some (.header (text "x-api-version"))) = .ok mapping ∧
      mapping.Selects asciiHost usersRequest (mapping.matchRequest asciiHost usersRequest) ∧
      (mapping.matchRequest asciiHost usersRequest).map (·.descriptor.methodName) = some (text "any") := by
  have accepted : createHandlerMapping asciiHost [usersController] (some (.header (text "x-api-version"))) = .ok _ := rfl
  refine ⟨_, accepted, (matchRequest_selects_iff accepted usersRequest).mpr (clear_of_unaffected ?_), ?_⟩
  · decide
  · decide

/-- A route with an empty version, and one with a parameter that is lost. -/
def oddController : HandlerSource :=
  ⟨0, none, [(text "empty", some ⟨text "GET", text "/empty", some []⟩),
    (text "proto", some ⟨text "GET", text "/:__proto__", none⟩)]⟩

def emptyRequest : FrameworkRequest := ⟨text "GET", false, text "/empty", [(text "x-api-version", some (.one (text "2")))]⟩

def protoRequest : FrameworkRequest := { emptyRequest with path := text "/x" }

theorem odd_not_selected : ∃ mapping : HandlerMapping,
    createHandlerMapping asciiHost [oddController] (some (.header (text "x-api-version"))) = .ok mapping ∧
      ¬ mapping.Selects asciiHost emptyRequest (mapping.matchRequest asciiHost emptyRequest) ∧
        ¬ mapping.Selects asciiHost protoRequest (mapping.matchRequest asciiHost protoRequest) := by
  refine ⟨_, rfl, fun selects => ?_, fun selects => ?_⟩
  · obtain ⟨i, at_, -, first⟩ := selects.1
    have other : 0 ≠ i := by
      rintro rfl
      cases at_
    rcases first 0 _ rfl (by decide) other with less | ⟨same, -⟩
    · exact absurd less (by decide)
    · exact absurd same (by decide)
  · have bound := selects.2 _ rfl (text "__proto__")
    exact absurd bound (by decide)

end HandlerMapping

end Fluo.Http
