import Fluo.Lib.JsString
import Fluo.Lib.OrderedMap
import Fluo.Lib.Prototypes

/-!
# Standard decorators and their metadata bags

The standard HTTP and validation decorators, what they write to the metadata bag
of a class, and the readers of these bags. A bag has the bag of the superclass as
its prototype. The stores that only the legacy decorators write are empty here.
-/

namespace Fluo.Metadata

open Js Prototypes

/-- A guard, an interceptor, a DTO class, a converter or a validation rule. -/
abbrev Reference := Nat

/-- A method token; `normalizeHttpRouteMethod` rejects the empty one. -/
abbrev HttpMethod := { method : JsString // method ≠ [] }

inductive MetadataSource where
  | path
  | query
  | header
  | cookie
  | body
  | files
  deriving DecidableEq

/-- `Partial<ControllerMetadata>`. -/
structure ControllerRecord where
  basePath : Option JsString := none
  guards : Option (List Reference) := none
  interceptors : Option (List Reference) := none
  version : Option JsString := none

structure RouteRecord where
  guards : Option (List Reference) := none
  headers : Option (List (JsString × JsString)) := none
  interceptors : Option (List Reference) := none
  method : Option HttpMethod := none
  path : Option JsString := none
  produces : Option (List JsString) := none
  redirect : Option (JsString × Option Nat) := none
  request : Option Reference := none
  successStatus : Option Nat := none
  version : Option JsString := none

/-- `Partial<DtoFieldBindingMetadata>`. -/
structure BindingRecord where
  converter : Option Reference := none
  key : Option JsString := none
  optional : Option Bool := none
  source : Option MetadataSource := none

/-! ## Decorators -/

def addNew {γ : Type} [DecidableEq γ] (merged : List γ) (value : γ) : List γ :=
  if value ∈ merged then merged else merged ++ [value]

def mergeUnique {γ : Type} [DecidableEq γ] (existing : Option (List γ)) (values : List γ) : List γ :=
  values.foldl addNew (existing.getD [])

def normalizeProducesMediaTypes (mediaTypes : List JsString) : List JsString :=
  mediaTypes.foldl (fun normalized mediaType =>
    if trim mediaType = [] then normalized else addNew normalized (trim mediaType)) []

inductive RouteDecorator where
  /-- `createRouteDecorator`: `Get`, `Sse`, `Route` and the others. -/
  | route (method : HttpMethod) (path : JsString) (produces : Option (List JsString))
  | requestDto (dto : Reference)
  | produces (mediaTypes : List JsString)
  | httpCode (status : Nat)
  | version (version : JsString)
  | header (name value : JsString)
  | redirect (url : JsString) (statusCode : Option Nat)
  | useGuards (guards : List Reference)
  | useInterceptors (interceptors : List Reference)

def RouteDecorator.apply : RouteDecorator → RouteRecord → RouteRecord
  | .route method path mediaTypes, record =>
    { record with
      method := some method
      path := some path
      produces := (mediaTypes.map normalizeProducesMediaTypes).or record.produces }
  | .requestDto dto, record => { record with request := some dto }
  | .produces mediaTypes, record => { record with produces := some (normalizeProducesMediaTypes mediaTypes) }
  | .httpCode status, record => { record with successStatus := some status }
  | .version label, record => { record with version := some label }
  | .header name value, record => { record with headers := some (record.headers.getD [] ++ [(name, value)]) }
  | .redirect url statusCode, record => { record with redirect := some (url, statusCode) }
  | .useGuards guards, record => { record with guards := some (mergeUnique record.guards guards) }
  | .useInterceptors interceptors, record =>
    { record with interceptors := some (mergeUnique record.interceptors interceptors) }

inductive BindingDecorator where
  /-- `createDtoFieldDecorator`; a missing key is written, too. -/
  | bind (source : MetadataSource) (key : Option JsString)
  | optional
  | convert (converter : Reference)

def BindingDecorator.apply : BindingDecorator → BindingRecord → BindingRecord
  | .bind source key, record => { record with key := key, source := some source }
  | .optional, record => { record with optional := some true }
  | .convert converter, record => { record with converter := some converter }

inductive Decorator where
  | controller (basePath : JsString)
  | version (version : JsString)
  | useGuards (guards : List Reference)
  | useInterceptors (interceptors : List Reference)
  | route (name : PropertyKey) (decorator : RouteDecorator)
  | binding (name : PropertyKey) (decorator : BindingDecorator)
  | fieldRule (name : PropertyKey) (rule : Reference)
  | classRule (rule : Reference)

/-! ## Bags -/

/-- `standardMetadataKeys`. -/
inductive MetadataKey where
  | controller
  | route
  | dtoFieldBinding
  | dtoFieldValidation
  | classValidation
  deriving DecidableEq

abbrev Entry : MetadataKey → Type
  | .controller => ControllerRecord
  | .route => OrderedMap PropertyKey RouteRecord
  | .dtoFieldBinding => OrderedMap PropertyKey BindingRecord
  | .dtoFieldValidation => OrderedMap PropertyKey (List Reference)
  | .classValidation => List Reference

def Entry.empty : (key : MetadataKey) → Entry key
  | .controller => {}
  | .route => OrderedMap.empty
  | .dtoFieldBinding => OrderedMap.empty
  | .dtoFieldValidation => OrderedMap.empty
  | .classValidation => []

def updateController : Decorator → Option (ControllerRecord → ControllerRecord)
  | .controller basePath => some fun controller => { controller with basePath := some basePath }
  | .version version => some fun controller => { controller with version := some version }
  | .useGuards guards => some fun controller => { controller with guards := some (mergeUnique controller.guards guards) }
  | .useInterceptors interceptors => some fun controller =>
    { controller with interceptors := some (mergeUnique controller.interceptors interceptors) }
  | _ => none

/-- `getStandardRouteRecord`, and what the decorator does to the record. -/
def updateRoutes : Decorator → Option (OrderedMap PropertyKey RouteRecord → OrderedMap PropertyKey RouteRecord)
  | .route name decorator => some fun routes => routes.set name (decorator.apply ((routes.get name).getD {}))
  | _ => none

/-- `mergeStandardDtoBinding`. -/
def updateBindings : Decorator → Option (OrderedMap PropertyKey BindingRecord → OrderedMap PropertyKey BindingRecord)
  | .binding name decorator => some fun bindings => bindings.set name (decorator.apply ((bindings.get name).getD {}))
  | _ => none

/-- `appendStandardDtoValidationRule`. -/
def updateFieldRules :
    Decorator → Option (OrderedMap PropertyKey (List Reference) → OrderedMap PropertyKey (List Reference))
  | .fieldRule name rule => some fun rules => rules.set name ((rules.get name).getD [] ++ [rule])
  | _ => none

/-- `appendStandardClassValidationRule`. -/
def updateClassRules : Decorator → Option (List Reference → List Reference)
  | .classRule rule => some fun rules => rules ++ [rule]
  | _ => none

def Decorator.update (decorator : Decorator) : (key : MetadataKey) → Option (Entry key → Entry key)
  | .controller => updateController decorator
  | .route => updateRoutes decorator
  | .dtoFieldBinding => updateBindings decorator
  | .dtoFieldValidation => updateFieldRules decorator
  | .classValidation => updateClassRules decorator

/-- The own properties of the bags of all classes. -/
abbrev Bags := (key : MetadataKey) → Nat → Option (Entry key)

/-- `getStandardControllerRecord`, `getStandardRouteMap` and
`getStandardDtoBindingMap` take the record that `bag[key]` finds, and create one
only when it finds none. `getStandardDtoValidationMap` and
`getStandardClassValidationList` copy it unless the bag has it as its own. -/
def writeRecord (H : Hierarchy) : (key : MetadataKey) →
    (Nat → Option (Entry key)) → Nat → (Entry key → Entry key) → Nat → Option (Entry key)
  | .controller => writeFound H (Entry.empty .controller)
  | .route => writeFound H (Entry.empty .route)
  | .dtoFieldBinding => writeFound H (Entry.empty .dtoFieldBinding)
  | .dtoFieldValidation => writeOwn H (Entry.empty .dtoFieldValidation)
  | .classValidation => writeOwn H (Entry.empty .classValidation)

/-- Classes in definition order, with their decorators in the order of application. -/
structure Program where
  hierarchy : Hierarchy
  decorators : Nat → List Decorator

namespace Program

variable (P : Program)

def applyDecorator (bags : Bags) (c : Nat) (decorator : Decorator) : Bags := fun key =>
  match decorator.update key with
  | some f => writeRecord P.hierarchy key (bags key) c f
  | none => bags key

def bags : Nat → Bags
  | 0 => fun _ _ => none
  | n + 1 => (P.decorators n).foldl (fun bags decorator => P.applyDecorator bags n decorator) (bags n)

end Program

/-! ## Readers -/

structure ControllerMetadata where
  basePath : JsString
  guards : Option (List Reference)
  interceptors : Option (List Reference)
  version : Option JsString

structure RouteMetadata where
  guards : Option (List Reference)
  headers : Option (List (JsString × JsString))
  interceptors : Option (List Reference)
  method : HttpMethod
  path : JsString
  redirect : Option (JsString × Option Nat)
  request : Option Reference
  successStatus : Option Nat
  version : Option JsString

structure BindingMetadata where
  converter : Option Reference
  key : Option JsString
  optional : Option Bool
  source : MetadataSource

/-- `mergeUnique` of the core package, `undefined` for nothing. -/
def mergeStored (stored standard : Option (List Reference)) : Option (List Reference) :=
  if stored.getD [] = [] ∧ standard.getD [] = [] then none else some (mergeUnique stored (standard.getD []))

/-- What `getStandardMetadataBag(target)?.[key]` gives, for every key. -/
abbrev Records := (key : MetadataKey) → Option (Entry key)

def getControllerMetadata (records : Records) : Option ControllerMetadata :=
  (records .controller).map fun controller : ControllerRecord =>
    { basePath := controller.basePath.getD [], guards := mergeStored none controller.guards,
      interceptors := mergeStored none controller.interceptors, version := controller.version }

def getRouteRecord (records : Records) (name : PropertyKey) : Option RouteRecord :=
  (records .route).bind fun routes : OrderedMap PropertyKey RouteRecord => routes.get name

def getRouteMetadata (records : Records) (name : PropertyKey) : Option RouteMetadata :=
  (getRouteRecord records name).bind fun route =>
  route.method.bind fun method =>
  route.path.map fun path =>
    { guards := mergeStored none route.guards, headers := route.headers,
      interceptors := mergeStored none route.interceptors, method := method, path := path, redirect := route.redirect,
      request := route.request, successStatus := route.successStatus, version := route.version }

def getRouteProducesMetadata (records : Records) (name : PropertyKey) : Option (List JsString) :=
  (getRouteRecord records name).bind (·.produces)

def bindingEntry (entry : PropertyKey × BindingRecord) : Option (PropertyKey × BindingMetadata) :=
  entry.2.source.map fun source => (entry.1, ⟨entry.2.converter, entry.2.key, entry.2.optional, source⟩)

def getDtoBindingSchema (records : Records) : List (PropertyKey × BindingMetadata) :=
  match records .dtoFieldBinding with
  | none => []
  | some bindings => (bindings : OrderedMap PropertyKey BindingRecord).entries.filterMap bindingEntry

def getDtoValidationSchema (records : Records) : List (PropertyKey × List Reference) :=
  match records .dtoFieldValidation with
  | none => []
  | some rules => (rules : OrderedMap PropertyKey (List Reference)).entries.filter fun entry => entry.2.length ≠ 0

def getClassValidationRules (records : Records) : List Reference := (records .classValidation).getD []

structure Results where
  controller : Option ControllerMetadata
  route : PropertyKey → Option RouteMetadata
  produces : PropertyKey → Option (List JsString)
  bindings : List (PropertyKey × BindingMetadata)
  fieldRules : List (PropertyKey × List Reference)
  classRules : List Reference

def results (records : Records) : Results where
  controller := getControllerMetadata records
  route := getRouteMetadata records
  produces := getRouteProducesMetadata records
  bindings := getDtoBindingSchema records
  fieldRules := getDtoValidationSchema records
  classRules := getClassValidationRules records

namespace Program

variable (P : Program)

def records (n c : Nat) : Records := fun key => read P.hierarchy (P.bags n key) c

/-- The results for a class when `n` classes are defined. -/
def results (n c : Nat) : Results := Metadata.results (P.records n c)

end Program

end Fluo.Metadata
