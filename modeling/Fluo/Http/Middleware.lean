import Fluo.Http.RoutePath

/-!
# Middleware that is bound to routes

A middleware runs for a request when one of its route patterns matches the
path. A pattern that ends in `/*` is meant to match every path below it.
-/

namespace Fluo.Http

open Js Code

def star : UInt16 := unit '*'

/-- `path.endsWith('/*')` -/
def endsInStar (path : JsString) : Bool := [slash, star].isSuffixOf path

/-- `path.slice(0, -2)` -/
def withoutStar (path : JsString) : JsString := path.take (path.length - 2)

theorem endsInStar_iff {path : JsString} : endsInStar path = true ↔ path = withoutStar path ++ [slash, star] := by
  rw [endsInStar, List.isSuffixOf_iff_suffix]
  constructor
  · rintro ⟨before, rfl⟩
    simp [withoutStar]
  · intro same
    exact ⟨_, same.symm⟩

theorem withoutStar_lt {path : JsString} (h : endsInStar path = true) : (withoutStar path).length < path.length := by
  have parts := congrArg List.length (endsInStar_iff.mp h)
  rw [List.length_append] at parts
  simp only [List.length_cons, List.length_nil] at parts
  omega

def normalizeRoutePattern (path : JsString) : JsString :=
  if endsInStar path then normalizeRoutePattern (withoutStar path) ++ [slash, star] else normalizeRoutePath path
termination_by path.length
decreasing_by exact withoutStar_lt ‹_›

def matchRoutePattern (pattern path : JsString) : Bool :=
  let normalizedPath := normalizeRoutePattern path
  let normalizedPattern := normalizeRoutePattern pattern
  if endsInStar normalizedPattern then
    let before := withoutStar normalizedPattern
    normalizedPath = before || (before ++ [slash]).isPrefixOf normalizedPath
  else normalizedPath = normalizedPattern

/-- A middleware class or object, with the routes that it is bound to, if any. -/
inductive MiddlewareDefinition
  | always (middleware : Nat)
  | onRoutes (middleware : Nat) (routes : List JsString)
  deriving DecidableEq, Repr

def MiddlewareDefinition.active (requestPath : JsString) : MiddlewareDefinition → Option Nat
  | .always middleware => some middleware
  | .onRoutes middleware routes =>
    if routes = [] ∨ routes.any (matchRoutePattern · requestPath) then some middleware else none

def resolveActiveMiddlewareDefinitions (definitions : List MiddlewareDefinition) (requestPath : JsString) : List Nat :=
  definitions.filterMap (·.active requestPath)

/-! ## Normal forms -/

/-- Nothing but slashes comes before the stars at the end: `/*`, `//*`, `/*/*`. -/
def isBare (path : JsString) : Bool :=
  if endsInStar path then
    if endsInStar (withoutStar path) then isBare (withoutStar path) else pathSegments (withoutStar path) = []
  else false
termination_by path.length
decreasing_by exact withoutStar_lt ‹_›

def spell (segments : List JsString) : JsString := segments.flatMap (slash :: ·)

@[simp] theorem spell_nil : spell [] = [] := rfl

theorem spell_append (l m : List JsString) : spell (l ++ m) = spell l ++ spell m := List.flatMap_append

theorem spell_star (l : List JsString) : spell (l ++ [[star]]) = spell l ++ [slash, star] := by
  simp [spell]

theorem slash_join {l : List JsString} (some : l ≠ []) : slash :: join slash l = spell l := by
  induction l with
  | nil => exact absurd rfl some
  | cons x l ih =>
    cases l with
    | nil => simp [join, spell]
    | cons y l =>
      rw [join_cons_cons, ih (List.cons_ne_nil _ _)]
      rfl

theorem normalizeRoutePath_spell {path : JsString} (some : pathSegments path ≠ []) :
    normalizeRoutePath path = spell (pathSegments path) := slash_join some

theorem normalizeRoutePath_root {path : JsString} (root : pathSegments path = []) : normalizeRoutePath path = [slash] := by
  rw [normalizeRoutePath, root]
  rfl

theorem pathSegments_star (path : JsString) : pathSegments (path ++ [slash, star]) = pathSegments path ++ [[star]] := by
  rw [pathSegments, words_append_cons, words_word (x := [star]) (by decide) (by simp)]
  rfl

theorem pathSegments_of_star {path : JsString} (h : endsInStar path = true) :
    pathSegments path = pathSegments (withoutStar path) ++ [[star]] := by
  rw [← pathSegments_star, ← endsInStar_iff.mp h]

/-- A bare path gets one slash more than its segments need. -/
theorem normalizeRoutePattern_eq (path : JsString) :
    normalizeRoutePattern path = if isBare path then slash :: normalizeRoutePath path else normalizeRoutePath path := by
  fun_induction normalizeRoutePattern path with
  | case1 path ends ih =>
    have segments := pathSegments_of_star ends
    have whole : normalizeRoutePath path = spell (pathSegments (withoutStar path)) ++ [slash, star] := by
      rw [normalizeRoutePath_spell (by rw [segments]; simp), segments, spell_star]
    have bare : isBare path = if endsInStar (withoutStar path) then isBare (withoutStar path)
        else decide (pathSegments (withoutStar path) = []) := by
      rw [isBare, if_pos ends]
    rw [ih, whole, bare]
    by_cases again : endsInStar (withoutStar path) = true
    · have some : pathSegments (withoutStar path) ≠ [] := by
        rw [pathSegments_of_star again]
        simp
      rw [if_pos again, normalizeRoutePath_spell some]
      split
      · rfl
      · rfl
    · have plain : isBare (withoutStar path) = false := by rw [isBare, if_neg again]
      rw [if_neg again, plain]
      by_cases root : pathSegments (withoutStar path) = []
      · simp [root, normalizeRoutePath_root root]
      · simp [root, normalizeRoutePath_spell root]
  | case2 path plain =>
    rw [isBare, if_neg plain]
    rfl

/-! ## Matching -/

def Words (l : List JsString) : Prop := ∀ x ∈ l, slash ∉ x ∧ x ≠ []

theorem pathSegments_words (path : JsString) : Words (pathSegments path) := fun _ mem => pathSegments_word mem

theorem Words.head {x : JsString} {l : List JsString} (h : Words (x :: l)) : ∃ u rest, x = u :: rest ∧ u ≠ slash := by
  obtain ⟨free, some⟩ := h x List.mem_cons_self
  cases x with
  | nil => exact absurd rfl some
  | cons u rest => exact ⟨u, rest, rfl, fun same => free (same ▸ List.mem_cons_self)⟩

theorem Words.tail {x : JsString} {l : List JsString} (h : Words (x :: l)) : Words l :=
  fun y mem => h y (List.mem_cons_of_mem x mem)

theorem pathSegments_cons (path : JsString) : pathSegments (slash :: path) = pathSegments path := by
  rw [pathSegments, ← List.nil_append (slash :: path), words_append_cons, words_nil, List.nil_append, pathSegments]

theorem pathSegments_spell {l : List JsString} (proper : Words l) (rest : JsString) :
    pathSegments (spell l ++ slash :: rest) = l ++ pathSegments rest := by
  induction l with
  | nil => exact pathSegments_cons rest
  | cons x l ih =>
    have follows : ∃ more, spell l ++ slash :: rest = slash :: more := by
      cases l with
      | nil => exact ⟨rest, rfl⟩
      | cons y l => exact ⟨y ++ spell l ++ slash :: rest, rfl⟩
    obtain ⟨more, eq⟩ := follows
    obtain ⟨free, some⟩ := proper x List.mem_cons_self
    have split : spell (x :: l) ++ slash :: rest = slash :: (x ++ slash :: more) := by
      rw [← eq]
      simp [spell]
    rw [split, pathSegments_cons, pathSegments, words_append_cons, words_word free some, ← pathSegments,
      ← pathSegments_cons more, ← eq, ih proper.tail]
    rfl

theorem pathSegments_slash (path : JsString) : pathSegments (path ++ [slash]) = pathSegments path := by
  rw [pathSegments, words_append_cons, words_nil, List.append_nil, pathSegments]

/-- A spelled prefix of a normal path is a prefix of its segments. -/
theorem below_iff {l : List JsString} (proper : Words l) (path : JsString) :
    normalizeRoutePath path = spell l ∨ spell l ++ [slash] <+: normalizeRoutePath path ↔ l <+: pathSegments path := by
  constructor
  · intro h
    rw [← pathSegments_normalizeRoutePath path]
    rcases h with same | ⟨rest, same⟩
    · have read := pathSegments_spell proper []
      rw [pathSegments_slash] at read
      rw [same, read]
      exact List.prefix_append l _
    · rw [← same, List.append_assoc, List.singleton_append, pathSegments_spell proper]
      exact List.prefix_append l _
  · rintro ⟨more, same⟩
    by_cases root : pathSegments path = []
    · rw [root, List.append_eq_nil_iff] at same
      rw [normalizeRoutePath_root root, same.1]
      exact .inr List.prefix_rfl
    · rw [normalizeRoutePath_spell root, ← same, spell_append]
      cases more with
      | nil => exact .inl (List.append_nil _)
      | cons x more => exact .inr ⟨x ++ spell more, by simp [spell]⟩

theorem spell_no_slashes {l : List JsString} (proper : Words l) (some : l ≠ []) (rest more : JsString) :
    spell l ++ rest ≠ slash :: slash :: more := by
  cases l with
  | nil => exact absurd rfl some
  | cons x l =>
    obtain ⟨u, x', rfl, other⟩ := proper.head
    intro same
    simp only [spell, List.flatMap_cons, List.cons_append, List.cons.injEq, true_and] at same
    exact other same.1

theorem normalizeRoutePath_no_slashes (path more : JsString) : normalizeRoutePath path ≠ slash :: slash :: more := by
  by_cases root : pathSegments path = []
  · rw [normalizeRoutePath_root root]
    simp
  · rw [normalizeRoutePath_spell root, ← List.append_nil (spell _)]
    exact spell_no_slashes (pathSegments_words path) root [] more

theorem normalizeRoutePath_cons (path : JsString) : ∃ more, normalizeRoutePath path = slash :: more := ⟨_, rfl⟩

/-- A normal path ends in a star when its last segment is one. -/
theorem endsInStar_normalizeRoutePath {path : JsString} :
    endsInStar (normalizeRoutePath path) = true ↔ ∃ l, pathSegments path = l ++ [[star]] := by
  constructor
  · intro ends
    refine ⟨pathSegments (withoutStar (normalizeRoutePath path)), ?_⟩
    rw [← pathSegments_normalizeRoutePath path, pathSegments_of_star ends]
  · rintro ⟨l, segments⟩
    rw [normalizeRoutePath_spell (by rw [segments]; simp), segments, spell_star, endsInStar,
      List.isSuffixOf_iff_suffix]
    exact List.suffix_append _ _

theorem isBare_star {path : JsString} (h : isBare path = true) : endsInStar path = true := by
  rw [isBare] at h
  split at h
  · assumption
  · cases h

theorem withoutStar_append (before : JsString) : withoutStar (before ++ [slash, star]) = before := by
  simp [withoutStar]

theorem endsInStar_append (before : JsString) : endsInStar (before ++ [slash, star]) = true :=
  endsInStar_iff.mpr (by rw [withoutStar_append])

/-- A pattern with a star at the end: what comes before the star is a prefix. -/
theorem matchRoutePattern_star {pattern path before : JsString}
    (normal : normalizeRoutePattern pattern = before ++ [slash, star]) :
    matchRoutePattern pattern path = true ↔
      normalizeRoutePattern path = before ∨ before ++ [slash] <+: normalizeRoutePattern path := by
  simp only [matchRoutePattern, normal, endsInStar_append, withoutStar_append, if_true, Bool.or_eq_true,
    decide_eq_true_eq, List.isPrefixOf_iff_prefix]

variable {pattern path : JsString} {l : List JsString}

theorem segments_before (star_ : pathSegments pattern = l ++ [[star]]) : Words l := fun x mem =>
  pathSegments_words pattern x (by rw [star_]; exact List.mem_append_left _ mem)

theorem normalizeRoutePath_of_star (star_ : pathSegments pattern = l ++ [[star]]) :
    normalizeRoutePath pattern = spell l ++ [slash, star] := by
  rw [normalizeRoutePath_spell (by rw [star_]; simp), star_, spell_star]

theorem matchRoutePattern_below (star_ : pathSegments pattern = l ++ [[star]]) (full : isBare pattern = false) :
    matchRoutePattern pattern path = true ↔ if isBare path then l = [] else l <+: pathSegments path := by
  have normal : normalizeRoutePattern pattern = spell l ++ [slash, star] := by
    rw [normalizeRoutePattern_eq, full, normalizeRoutePath_of_star star_]
    rfl
  rw [matchRoutePattern_star normal, normalizeRoutePattern_eq path]
  cases bare : isBare path with
  | false => exact below_iff (segments_before star_) path
  | true =>
    obtain ⟨more, slashed⟩ := normalizeRoutePath_cons path
    rw [if_pos rfl, if_pos rfl, slashed]
    constructor
    · intro h
      by_contra some
      rcases h with same | ⟨rest, same⟩
      · exact spell_no_slashes (segments_before star_) some [] more (by rw [List.append_nil, same])
      · exact spell_no_slashes (segments_before star_) some (slash :: rest) more (by simpa using same)
    · rintro rfl
      exact .inr ⟨slash :: more, rfl⟩

theorem matchRoutePattern_bare (star_ : pathSegments pattern = l ++ [[star]]) (bare : isBare pattern = true) :
    matchRoutePattern pattern path = true ↔
      if isBare path then l <+: pathSegments path else l = [] ∧ pathSegments path = [] := by
  have normal : normalizeRoutePattern pattern = slash :: spell l ++ [slash, star] := by
    rw [normalizeRoutePattern_eq, bare, normalizeRoutePath_of_star star_]
    rfl
  rw [matchRoutePattern_star normal, normalizeRoutePattern_eq path]
  cases bare' : isBare path with
  | true =>
    rw [if_pos rfl, if_pos rfl, ← below_iff (segments_before star_) path, List.cons.injEq, List.cons_append,
      List.cons_prefix_cons]
    simp
  | false =>
    have single (more : JsString) : normalizeRoutePath path ≠ slash :: slash :: more := normalizeRoutePath_no_slashes path more
    simp only [Bool.false_eq_true, if_false]
    constructor
    · rintro (same | ⟨rest, same⟩)
      · cases l with
        | nil =>
          refine ⟨rfl, ?_⟩
          rw [← pathSegments_normalizeRoutePath path, same]
          rfl
        | cons x l => exact absurd same (single _)
      · cases l with
        | nil => exact absurd same.symm (single _)
        | cons x l => exact absurd same.symm (single _)
    · rintro ⟨rfl, root⟩
      exact .inl (normalizeRoutePath_root root)

theorem matchRoutePattern_exact (plain : ∀ l, pathSegments pattern ≠ l ++ [[star]]) :
    matchRoutePattern pattern path = true ↔ pathSegments pattern = pathSegments path := by
  have noStar : endsInStar pattern = false := by
    cases ends : endsInStar pattern with
    | false => rfl
    | true => exact absurd (pathSegments_of_star ends) (plain _)
  have notBare : isBare pattern = false := by
    rw [isBare, if_neg (by rw [noStar]; decide)]
  have normal : normalizeRoutePattern pattern = normalizeRoutePath pattern := by
    rw [normalizeRoutePattern_eq, notBare]
    rfl
  have ends : endsInStar (normalizeRoutePath pattern) = false := by
    cases h : endsInStar (normalizeRoutePath pattern) with
    | false => rfl
    | true =>
      obtain ⟨l, segments⟩ := endsInStar_normalizeRoutePath.mp h
      exact absurd segments (plain l)
  simp only [matchRoutePattern, normal, ends, Bool.false_eq_true, if_false, decide_eq_true_eq]
  rw [normalizeRoutePattern_eq path]
  cases bare : isBare path with
  | false =>
    rw [if_neg (by decide), normalizeRoutePath_inj]
    exact eq_comm
  | true =>
    obtain ⟨more, slashed⟩ := normalizeRoutePath_cons path
    rw [if_pos rfl, slashed]
    constructor
    · intro same
      exact absurd same.symm (normalizeRoutePath_no_slashes pattern more)
    · intro same
      exact absurd (same.trans (pathSegments_of_star (isBare_star bare))) (plain _)

/-! ## What a pattern is meant to match -/

/-- What a pattern that ends in `/*` is bound to is every path below; any other
pattern is bound to the path with its own segments. -/
def MatchesSegments (pattern path : JsString) : Prop :=
  if endsInStar pattern then (pathSegments pattern).dropLast <+: pathSegments path
  else pathSegments pattern = pathSegments path

/-- A pattern with `/*` at its end: it is bare exactly when the path is, or the
path is the root, unless the path is not below it anyway. -/
def RootedAlike (pattern path : JsString) : Prop :=
  (pathSegments pattern).dropLast <+: pathSegments path → isBare pattern = isBare path ∨ pathSegments path = []

/-- A pattern whose last segment is a star though it does not end in `/*`: the
path has the same segments or is not below the pattern's other segments. -/
def StarAlone (pattern path : JsString) : Prop :=
  if isBare path = true ∧ (pathSegments pattern).dropLast ≠ [] then pathSegments pattern ≠ pathSegments path
  else (pathSegments pattern).dropLast <+: pathSegments path → pathSegments pattern = pathSegments path

/-- When slashes and stars are where matching expects them. -/
def Unambiguous (pattern path : JsString) : Prop :=
  if endsInStar pattern then RootedAlike pattern path
  else (pathSegments pattern).getLast? = some [star] → StarAlone pattern path

theorem isBare_nonempty {path : JsString} (bare : isBare path = true) : pathSegments path ≠ [] := by
  rw [pathSegments_of_star (isBare_star bare)]
  simp

theorem isBare_of_root {path : JsString} (ends : endsInStar path = true) (root : pathSegments (withoutStar path) = []) :
    isBare path = true := by
  rw [isBare, if_pos ends, if_neg, root, decide_eq_true_eq]
  intro again
  rw [pathSegments_of_star again] at root
  simp at root

theorem endsInStar_segments_iff (ends : endsInStar pattern = true) :
    (matchRoutePattern pattern path = true ↔ MatchesSegments pattern path) ↔ RootedAlike pattern path := by
  have segments := pathSegments_of_star ends
  have before : (pathSegments pattern).dropLast = pathSegments (withoutStar pattern) := by
    rw [segments, List.dropLast_concat]
  rw [MatchesSegments, if_pos ends, RootedAlike, before]
  cases bare : isBare pattern with
  | true =>
    rw [matchRoutePattern_bare segments bare]
    cases isBare path with
    | true => simp
    | false =>
      simp only [Bool.false_eq_true, if_false, reduceCtorEq, false_or]
      constructor
      · exact fun same below => (same.mpr below).2
      · refine fun root => ⟨fun empty => empty.1 ▸ List.nil_prefix, fun below => ⟨?_, root below⟩⟩
        rw [root below] at below
        exact List.prefix_nil.mp below
  | false =>
    rw [matchRoutePattern_below segments bare]
    cases bare' : isBare path with
    | false => simp
    | true =>
      have inner : pathSegments (withoutStar pattern) ≠ [] := fun root => by
        rw [isBare_of_root ends root] at bare
        cases bare
      simp only [if_true, inner, false_iff, Bool.false_eq_true, isBare_nonempty bare', or_self, imp_false]

theorem other_segments_iff (other : endsInStar pattern = false) :
    (matchRoutePattern pattern path = true ↔ MatchesSegments pattern path) ↔
      ((pathSegments pattern).getLast? = some [star] → StarAlone pattern path) := by
  have full : isBare pattern = false := by
    rw [isBare, if_neg (by rw [other]; decide)]
  rw [MatchesSegments, if_neg (by rw [other]; decide)]
  by_cases last : (pathSegments pattern).getLast? = some [star]
  · obtain ⟨l, segments⟩ := List.getLast?_eq_some_iff.mp last
    rw [matchRoutePattern_below segments full, StarAlone, segments, List.dropLast_concat]
    have below (same : l ++ [[star]] = pathSegments path) : l <+: pathSegments path := same ▸ List.prefix_append l _
    cases isBare path with
    | false =>
      simp only [Bool.false_eq_true, if_false, false_and, List.getLast?_concat, true_implies]
      exact ⟨Iff.mp, fun only => ⟨only, below⟩⟩
    | true =>
      simp only [if_true, true_and, List.getLast?_concat, true_implies]
      by_cases root : l = []
      · simp [root]
      · simp [root]
  · simp only [last, false_implies, iff_true]
    refine matchRoutePattern_exact fun l segments => last ?_
    rw [segments, List.getLast?_concat]

theorem matchRoutePattern_unambiguous (h : Unambiguous pattern path) :
    matchRoutePattern pattern path = true ↔ MatchesSegments pattern path := by
  rw [Unambiguous] at h
  split at h
  · next ends => exact (endsInStar_segments_iff ends).mpr h
  · next other => exact (other_segments_iff (Bool.eq_false_iff.mpr other)).mpr h

/-- A middleware whose routes are unambiguous runs for the paths it is bound to. -/
theorem active_onRoutes {routes : List JsString} (middleware : Nat) (h : ∀ route ∈ routes, Unambiguous route path) :
    (MiddlewareDefinition.onRoutes middleware routes).active path = some middleware ↔
      routes = [] ∨ ∃ route ∈ routes, MatchesSegments route path := by
  have bound : routes.any (matchRoutePattern · path) = true ↔ ∃ route ∈ routes, MatchesSegments route path := by
    rw [List.any_eq_true]
    exact exists_congr fun route => and_congr_right fun mem => matchRoutePattern_unambiguous (h route mem)
  rw [MiddlewareDefinition.active, ← bound]
  split
  · next runs => exact ⟨fun _ => runs, fun _ => rfl⟩
  · next idle => exact ⟨nofun, fun runs => absurd runs idle⟩

/-- The middleware that runs for a path is the one for every path and the one that is
bound to it, where no route is ambiguous for the path. -/
theorem mem_resolveActiveMiddlewareDefinitions {definitions : List MiddlewareDefinition} {middleware : Nat}
    (h : ∀ m routes, .onRoutes m routes ∈ definitions → ∀ route ∈ routes, Unambiguous route path) :
    middleware ∈ resolveActiveMiddlewareDefinitions definitions path ↔
      .always middleware ∈ definitions ∨ ∃ routes, .onRoutes middleware routes ∈ definitions ∧
        (routes = [] ∨ ∃ route ∈ routes, MatchesSegments route path) := by
  rw [resolveActiveMiddlewareDefinitions, List.mem_filterMap]
  constructor
  · rintro ⟨definition, mem, active⟩
    cases definition with
    | always m =>
      cases active
      exact .inl mem
    | onRoutes m routes =>
      have same : m = middleware := by
        rw [MiddlewareDefinition.active] at active
        split at active
        · exact Option.some.inj active
        · cases active
      rw [same] at mem active
      exact .inr ⟨routes, mem, (active_onRoutes middleware (h middleware routes mem)).mp active⟩
  · rintro (mem | ⟨routes, mem, bound⟩)
    · exact ⟨_, mem, rfl⟩
    · exact ⟨_, mem, (active_onRoutes middleware (h middleware routes mem)).mpr bound⟩

/-- Matching is by segments for the patterns and paths that are unambiguous,
and for no others. -/
theorem matchRoutePattern_segments_iff (pattern path : JsString) :
    (matchRoutePattern pattern path = true ↔ MatchesSegments pattern path) ↔ Unambiguous pattern path := by
  rw [Unambiguous]
  split
  · next ends => exact endsInStar_segments_iff ends
  · next other => exact other_segments_iff (Bool.eq_false_iff.mpr other)

/-- Middleware bound to `/*` does not run for `/admin`. -/
theorem matchRoutePattern_root_star :
    MatchesSegments (text "/*") (text "/admin") ∧ matchRoutePattern (text "/*") (text "/admin") = false := by
  have bare : isBare (text "/*") = true := isBare_of_root (by decide) (by decide)
  have full : isBare (text "/admin") = false := by
    rw [isBare, if_neg (by decide)]
  constructor
  · rw [MatchesSegments, if_pos (by decide)]
    decide
  · rw [← Bool.not_eq_true, matchRoutePattern_bare (l := []) (by decide) bare, full]
    decide

end Fluo.Http
