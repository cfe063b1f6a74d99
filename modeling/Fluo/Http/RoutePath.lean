import Fluo.Lib.Checks
import Fluo.Lib.Numerals

/-!
# Route paths

Paths are normalized to their segments. A registered path has literal segments
and `:param` placeholders.
-/

namespace Fluo.Http

open Fluo.Js Fluo.Code

inductive RoutePathSegment
  | literal (value : JsString)
  | param (name : JsString)
  deriving DecidableEq, Repr

inductive MappingError
  | invalidRoutePath (message : JsString)
  | routeConflict (message : JsString)
  deriving DecidableEq, Repr

def slash : UInt16 := unit '/'

def colon : UInt16 := unit ':'

def isLetter (u : UInt16) : Bool :=
  (unit 'a' ≤ u && u ≤ unit 'z') || (unit 'A' ≤ u && u ≤ unit 'Z')

/-- `routeParamNamePattern`. -/
def isParamName : JsString → Bool
  | [] => false
  | u :: rest => (isLetter u || u == unit '_') && rest.all fun v => isLetter v || isDigit v || v == unit '_'

/-- `unsupportedLiteralTokenPattern`. -/
def hasUnsupportedToken (segment : JsString) : Bool := segment.any fun u => u ∈ text "*?+()[]\x7b\x7d\\"

def normalizeLabel (label : Option JsString) : JsString :=
  match label.map trim with
  | none | some [] => text "Route path"
  | some value => value

def invalidRoutePath (label : Option JsString) (path segment reason : JsString) : MappingError :=
  .invalidRoutePath (normalizeLabel label ++ text " \"" ++ path ++ text "\" is invalid at segment \"" ++ segment ++
    text "\": " ++ reason ++
    text ". Only literal segments and full-segment \":param\" placeholders are supported.")

def parseRoutePathSegment (segment path : JsString) (label : Option JsString) : Except MappingError RoutePathSegment :=
  if segment.head? = some colon then
    if isParamName segment.tail then .ok (.param segment.tail)
    else .error (invalidRoutePath label path segment (text "Parameter names must match /[a-zA-Z_][a-zA-Z0-9_]*/"))
  else if colon ∈ segment then
    .error (invalidRoutePath label path segment (text "Parameters must occupy the entire segment"))
  else if hasUnsupportedToken segment then
    .error (invalidRoutePath label path segment
      (text "Wildcards, regex-like tokens, and inline modifiers are not supported"))
  else .ok (.literal segment)

/-- The segments of a path: `path.split('/').filter(Boolean)`. -/
def pathSegments (path : JsString) : List JsString := words slash path

def normalizeRoutePath (path : JsString) : JsString := slash :: join slash (pathSegments path)

def parseRoutePath (path : JsString) (label : Option JsString) : Except MappingError (List RoutePathSegment) :=
  (pathSegments (normalizeRoutePath path)).mapM fun segment => parseRoutePathSegment segment path label

def paramName : RoutePathSegment → Option JsString
  | .literal _ => none
  | .param name => some name

def extractRoutePathParams (path : JsString) : Except MappingError (List JsString) := do
  pure ((← parseRoutePath path none).filterMap paramName)

/-! ## Segments -/

theorem pathSegments_word {path segment : JsString} (mem : segment ∈ pathSegments path) : slash ∉ segment ∧ segment ≠ [] :=
  words_mem mem

@[simp] theorem pathSegments_normalizeRoutePath (path : JsString) :
    pathSegments (normalizeRoutePath path) = pathSegments path := by
  rw [normalizeRoutePath, pathSegments, ← List.nil_append (slash :: _), words_append_cons, words_nil, List.nil_append]
  exact words_join_words fun segment mem => pathSegments_word mem

theorem normalizeRoutePath_inj {path path' : JsString} :
    normalizeRoutePath path = normalizeRoutePath path' ↔ pathSegments path = pathSegments path' := by
  constructor
  · intro same
    rw [← pathSegments_normalizeRoutePath path, same, pathSegments_normalizeRoutePath]
  · intro same
    rw [normalizeRoutePath, same, normalizeRoutePath]

/-- The segment that a text stands for when it is one at all. -/
def segmentOf (segment : JsString) : RoutePathSegment :=
  if segment.head? = some colon then .param segment.tail else .literal segment

theorem parseRoutePathSegment_ok {segment path : JsString} {label : Option JsString} {parsed : RoutePathSegment}
    (h : parseRoutePathSegment segment path label = .ok parsed) : parsed = segmentOf segment := by
  rw [parseRoutePathSegment] at h
  rw [segmentOf]
  split at h
  · next placeholder =>
    rw [if_pos placeholder]
    split at h <;> cases h
    rfl
  · next plain =>
    rw [if_neg plain]
    split at h
    · cases h
    · split at h <;> cases h
      rfl

theorem parseRoutePath_ok {path : JsString} {label : Option JsString} {parsed : List RoutePathSegment}
    (h : parseRoutePath path label = .ok parsed) : parsed = (pathSegments path).map segmentOf := by
  rw [parseRoutePath, pathSegments_normalizeRoutePath] at h
  replace h := forall₂_of_mapM h
  generalize pathSegments path = names at h
  induction h with
  | nil => rfl
  | cons first _ ih => rw [List.map_cons, ← ih, ← parseRoutePathSegment_ok first]

end Fluo.Http
