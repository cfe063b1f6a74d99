import Fluo.Lib.JsString

/-!
# The version of a request

Versioning options and what they read of a request.
-/

namespace Fluo.Http

open Fluo.Js

/-- The case mappings of the host; `canonicalize` is that of one code unit, as
patterns without case compare them. -/
structure CaseMapping where
  toUpperCase : JsString → JsString
  toLowerCase : JsString → JsString
  canonicalize : UInt16 → UInt16

/-- The case mapping of texts that are in the wanted case. -/
def CaseMapping.same : CaseMapping := ⟨fun s => s, fun s => s, fun u => u⟩

/-- The value of a header; repeated headers arrive as an array. -/
inductive HeaderValue
  | one (value : JsString)
  | many (values : List JsString)
  deriving DecidableEq, Repr

structure FrameworkRequest where
  method : JsString
  /-- `headRouting` is `'explicit-or-get'`. -/
  explicitOrGet : Bool
  path : JsString
  headers : List (JsString × Option HeaderValue)
  deriving DecidableEq, Repr

inductive VersioningType
  | uri
  | header
  | mediaType
  | custom
  deriving DecidableEq, Repr

/-- The values that an extractor returns, none for `undefined`. -/
abbrev VersioningExtractorResult := List JsString

/-- `VersioningOptions`; without a type the versions are in the path. -/
inductive VersioningOptions
  | uri
  | header (header : JsString)
  | mediaType (key : Option JsString)
  | custom (extractor : FrameworkRequest → VersioningExtractorResult)

structure ResolvedVersioning where
  extractor : FrameworkRequest → VersioningExtractorResult
  type : VersioningType

/-- Strips one `v`, which may be upper case. -/
def stripV : JsString → JsString
  | [] => []
  | u :: rest => if u = unit 'v' ∨ u = unit 'V' then rest else u :: rest

def normalizeVersionValue (version : JsString) : JsString := stripV (trim version)

def normalizeVersionSegment (version : JsString) : JsString := unit 'v' :: stripV (trim version)

def nonEmpty (s : JsString) : Option JsString := if s = [] then none else some s

section

variable (host : CaseMapping)

def normalizeHeaderName (headerName : JsString) : Option JsString := nonEmpty (host.toLowerCase (trim headerName))

def getMatchingRequestHeaderValues (request : FrameworkRequest) (headerName : JsString) : List (Option HeaderValue) :=
  match normalizeHeaderName host headerName with
  | none => []
  | some normalized =>
    (request.headers.filter fun entry => host.toLowerCase entry.1 = normalized).map Prod.snd

/-- The texts of a header that are not blank. -/
def headerTexts (request : FrameworkRequest) (headerName : JsString) : List JsString :=
  (getMatchingRequestHeaderValues host request headerName).flatMap fun match_ =>
    match match_ with
    | none => []
    | some (.one value) => (nonEmpty (trim value)).toList
    | some (.many values) => values.filterMap fun value => nonEmpty (trim value)

def readHeaderValue (request : FrameworkRequest) (headerName : JsString) : Option JsString :=
  (headerTexts host request headerName).head?

def readCombinedHeaderValue (request : FrameworkRequest) (headerName : JsString) : Option JsString :=
  match headerTexts host request headerName with
  | [] => none
  | values => some (Code.join (unit ',') values)

/-- The pattern of a media type version, at the start of a text: the key, in
either case, and all that follows up to a delimiter. -/
def matchVersionHere (key s : JsString) : Option JsString :=
  if (s.take key.length).map host.canonicalize = key.map host.canonicalize then
    nonEmpty ((s.drop key.length).takeWhile fun u => !(u ∈ text ";,+") && !isWhiteSpace u)
  else none

/-- The first place in a text where the pattern matches. -/
def matchVersion (key : JsString) : JsString → Option JsString
  | [] => matchVersionHere host key []
  | u :: rest => (matchVersionHere host key (u :: rest)).or (matchVersion key rest)

def extractVersionFromMediaType (request : FrameworkRequest) (key : JsString) : Option JsString :=
  match readCombinedHeaderValue host request (text "accept") with
  | none => none
  | some accept =>
    (((accept.splitOn (unit ',')).map trim).filter (· ≠ [])).findSome? fun mediaType =>
      (matchVersion host key mediaType).bind fun version => nonEmpty (trim version)

def resolveVersioning : Option VersioningOptions → ResolvedVersioning
  | none | some .uri => ⟨fun _ => [], .uri⟩
  | some (.header header) => ⟨fun request => (readHeaderValue host request header).toList, .header⟩
  | some (.mediaType key) =>
    ⟨fun request => (extractVersionFromMediaType host request (key.getD (text "v="))).toList, .mediaType⟩
  | some (.custom extractor) => ⟨extractor, .custom⟩

end

/-- The first of the extracted values that names a version. -/
def resolveRequestVersion (request : FrameworkRequest) (versioning : ResolvedVersioning) : Option JsString :=
  (versioning.extractor request).findSome? fun value => nonEmpty (normalizeVersionValue value)

theorem resolveRequestVersion_ne_nil {request : FrameworkRequest} {versioning : ResolvedVersioning} {version : JsString}
    (h : resolveRequestVersion request versioning = some version) : version ≠ [] := by
  obtain ⟨value, -, named⟩ := List.exists_of_findSome?_eq_some h
  rw [nonEmpty] at named
  split at named
  · cases named
  · next notEmpty =>
    cases named
    exact notEmpty

end Fluo.Http
