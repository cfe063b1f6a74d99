import Fluo.Http.RequestVersion
import Fluo.Http.RoutePath
import Fluo.Lib.OrderedMap

/-!
# Handler mapping

`createHandlerMapping` compiles the routes of controllers into an index by
method and path, and `match` looks a request up in it.
-/

namespace Fluo.Http

open Fluo.Js Fluo.Code

structure RouteMetadata where
  method : JsString
  path : JsString
  version : Option JsString
  deriving DecidableEq, Repr

structure ControllerMetadata where
  basePath : JsString
  version : Option JsString
  deriving DecidableEq, Repr

/-- A controller, with the properties of its prototype in order and the route
metadata of each. -/
structure HandlerSource where
  controllerToken : Nat
  controllerMetadata : Option ControllerMetadata
  methods : List (JsString × Option RouteMetadata)
  deriving DecidableEq, Repr

structure HandlerMetadata where
  controllerPath : JsString
  effectivePath : JsString
  effectiveVersion : Option JsString
  versionSelection : VersioningType
  pathParams : List JsString
  deriving DecidableEq, Repr

structure HandlerDescriptor where
  controllerToken : Nat
  metadata : HandlerMetadata
  methodName : JsString
  route : RouteMetadata
  deriving DecidableEq, Repr

structure HandlerMatch where
  descriptor : HandlerDescriptor
  params : OrderedMap JsString JsString

structure IndexedDescriptor where
  descriptor : HandlerDescriptor
  segments : List RoutePathSegment
  deriving DecidableEq, Repr

/-- Descriptors by method, and then by path or by the number of segments. -/
structure CompiledDescriptorIndex where
  static : OrderedMap JsString (OrderedMap JsString (List HandlerDescriptor))
  param : OrderedMap JsString (OrderedMap Nat (List IndexedDescriptor))

structure HandlerMapping where
  versioning : ResolvedVersioning
  descriptors : List HandlerDescriptor
  descriptorIndex : CompiledDescriptorIndex

def joinPaths (basePath routePath : JsString) : JsString := normalizeRoutePath (basePath ++ slash :: routePath)

def applyVersionPrefix (path : JsString) (version : Option JsString) : JsString :=
  match version with
  | none | some [] => path
  | some version => joinPaths (slash :: normalizeVersionSegment version) path

/-! ## Registration -/

def createHandlerDescriptor (source : HandlerSource) (type : VersioningType) (property : JsString × Option RouteMetadata) :
    Except MappingError (Option HandlerDescriptor) :=
  match property.2 with
  | none => .ok none
  | some routeMetadata => do
    let controllerMetadata := source.controllerMetadata.getD ⟨[], none⟩
    let effectiveVersion := routeMetadata.version.or controllerMetadata.version
    let routePath := joinPaths controllerMetadata.basePath routeMetadata.path
    let effectivePath := if type = .uri then applyVersionPrefix routePath effectiveVersion else routePath
    let pathParams ← extractRoutePathParams effectivePath
    pure (some
      { controllerToken := source.controllerToken
        metadata := ⟨controllerMetadata.basePath, effectivePath, effectiveVersion, type, pathParams⟩
        methodName := property.1
        route := { routeMetadata with path := effectivePath, version := effectiveVersion } })

def createHandlerDescriptors (source : HandlerSource) (type : VersioningType) :
    Except MappingError (List HandlerDescriptor) := do
  pure ((← source.methods.mapM (createHandlerDescriptor source type)).filterMap id)

def routeKey (descriptor : HandlerDescriptor) : JsString :=
  descriptor.route.method ++ colon :: descriptor.route.path ++ colon ::
    (match descriptor.route.version with
    | none => text "<none>"
    | some version => normalizeVersionValue version)

/-- Refuses the first route whose key was seen before. -/
def checkConflicts (seen : List JsString) : List HandlerDescriptor → Except MappingError Unit
  | [] => .ok ()
  | descriptor :: rest =>
    if routeKey descriptor ∈ seen then
      .error (.routeConflict (text "Duplicate route registration detected for " ++ routeKey descriptor ++ text "."))
    else checkConflicts (routeKey descriptor :: seen) rest

def buildDescriptorList (sources : List HandlerSource) (type : VersioningType) :
    Except MappingError (List HandlerDescriptor) := do
  let descriptors := (← sources.mapM fun source => createHandlerDescriptors source type).flatten
  checkConflicts [] descriptors
  pure descriptors

/-! ## The index -/

def lookup {κ κ' α : Type} [DecidableEq κ] [DecidableEq κ'] (index : OrderedMap κ (OrderedMap κ' (List α))) (k : κ)
    (k' : κ') : Option (List α) := (index.get k).bind fun bucketMap => bucketMap.get k'

/-- Adds to the end of a bucket, which is made when it is missing. -/
def pushTo {κ κ' α : Type} [DecidableEq κ] [DecidableEq κ'] (index : OrderedMap κ (OrderedMap κ' (List α))) (k : κ)
    (k' : κ') (a : α) : OrderedMap κ (OrderedMap κ' (List α)) :=
  index.set k (((index.get k).getD OrderedMap.empty).set k' ((lookup index k k').getD [] ++ [a]))

def RoutePathSegment.isLiteral : RoutePathSegment → Bool
  | .literal _ => true
  | .param _ => false

def indexDescriptor (index : CompiledDescriptorIndex) (descriptor : HandlerDescriptor) :
    Except MappingError CompiledDescriptorIndex := do
  let route := descriptor.route
  let segments ← parseRoutePath route.path (some (text "Registered " ++ route.method ++ text " route path"))
  if segments.all RoutePathSegment.isLiteral then
    pure { index with static := pushTo index.static route.method route.path descriptor }
  else
    pure { index with param := pushTo index.param route.method segments.length ⟨descriptor, segments⟩ }

def buildDescriptorIndex (descriptors : List HandlerDescriptor) : Except MappingError CompiledDescriptorIndex :=
  descriptors.foldlM indexDescriptor ⟨OrderedMap.empty, OrderedMap.empty⟩

def createHandlerMapping (host : CaseMapping) (sources : List HandlerSource) (options : Option VersioningOptions) :
    Except MappingError HandlerMapping := do
  let versioning := resolveVersioning host options
  let descriptors ← buildDescriptorList sources versioning.type
  let descriptorIndex ← buildDescriptorIndex descriptors
  pure ⟨versioning, descriptors, descriptorIndex⟩

/-! ## Matching -/

def matchesRouteVersion (descriptor : HandlerDescriptor) (requestVersion : Option JsString) : Bool :=
  match descriptor.route.version, requestVersion with
  | none, none | some [], none => true
  | none, some _ | some [], some _ | some _, none => false
  | some routeVersion, some requestVersion => requestVersion ≠ [] && normalizeVersionValue routeVersion = requestVersion

/-- The scan of a bucket: the first match of the version, else the first route
without a version, which is remembered on the way. -/
def selectMatch (type : VersioningType) (requestVersion : Option JsString) (firstUnversionedMatch : Option HandlerMatch) :
    List HandlerMatch → Option HandlerMatch
  | [] => firstUnversionedMatch
  | candidate :: rest =>
    if type = .uri then some candidate
    else if matchesRouteVersion candidate.descriptor requestVersion then some candidate
    else if candidate.descriptor.route.version = none ∧ firstUnversionedMatch.isNone then
      selectMatch type requestVersion (some candidate) rest
    else selectMatch type requestVersion firstUnversionedMatch rest

def findStaticMatch (descriptorBuckets : List (Option (List HandlerDescriptor))) (requestVersion : Option JsString)
    (type : VersioningType) : Option HandlerMatch :=
  selectMatch type requestVersion none
    ((descriptorBuckets.flatMap fun bucket => bucket.getD []).map fun descriptor => ⟨descriptor, OrderedMap.empty⟩)

/-- An assignment to a property of an object literal: `__proto__` only takes
objects, and ignores a string. -/
def assign (params : OrderedMap JsString JsString) (name value : JsString) : OrderedMap JsString JsString :=
  if name = text "__proto__" then params else params.set name value

def literalsAgree : List RoutePathSegment → List JsString → Bool
  | .literal value :: segments, incoming :: incomingSegments => value = incoming && literalsAgree segments incomingSegments
  | .param _ :: segments, _ :: incomingSegments => literalsAgree segments incomingSegments
  | _, _ => true

def bindParams (params : OrderedMap JsString JsString) :
    List RoutePathSegment → List JsString → OrderedMap JsString JsString
  | .param name :: segments, incoming :: incomingSegments => bindParams (assign params name incoming) segments incomingSegments
  | .literal _ :: segments, _ :: incomingSegments => bindParams params segments incomingSegments
  | _, _ => params

def matchParameterizedRoute (candidate : IndexedDescriptor) (incomingSegments : List JsString) :
    Option (OrderedMap JsString JsString) :=
  if candidate.segments.length ≠ incomingSegments.length then none
  else if literalsAgree candidate.segments incomingSegments then
    some (bindParams OrderedMap.empty candidate.segments incomingSegments)
  else none

namespace HandlerMapping

def matchMethod (mapping : HandlerMapping) (method : JsString) (requestVersion : Option JsString)
    (normalizedPath : JsString) (includeAll : Bool) : Option HandlerMatch :=
  let index := mapping.descriptorIndex
  let type := mapping.versioning.type
  let methodStaticDescriptors := lookup index.static method normalizedPath
  let allStaticDescriptors := if includeAll then lookup index.static (text "ALL") normalizedPath else none
  match findStaticMatch [methodStaticDescriptors, allStaticDescriptors] requestVersion type with
  | some directStaticMatch => some directStaticMatch
  | none =>
    let incomingSegments := pathSegments normalizedPath
    let candidates := (lookup index.param method incomingSegments.length).getD [] ++
      if includeAll then (lookup index.param (text "ALL") incomingSegments.length).getD [] else []
    selectMatch type requestVersion none (candidates.filterMap fun candidate =>
      (matchParameterizedRoute candidate incomingSegments).map fun params => ⟨candidate.descriptor, params⟩)

def requestVersion (mapping : HandlerMapping) (request : FrameworkRequest) : Option JsString :=
  if mapping.versioning.type = .uri then none else resolveRequestVersion request mapping.versioning

/-- `match` of the mapping. -/
def matchRequest (mapping : HandlerMapping) (host : CaseMapping) (request : FrameworkRequest) : Option HandlerMatch :=
  let method := host.toUpperCase request.method
  let requestVersion := mapping.requestVersion request
  let normalizedPath := normalizeRoutePath request.path
  if method = text "HEAD" ∧ request.explicitOrGet = true then
    ((mapping.matchMethod (text "HEAD") requestVersion normalizedPath false).or
      (mapping.matchMethod (text "ALL") requestVersion normalizedPath false)).or
        (mapping.matchMethod (text "GET") requestVersion normalizedPath false)
  else mapping.matchMethod method requestVersion normalizedPath true

end HandlerMapping

end Fluo.Http
