import Fluo.Http.RequestVersion
import Fluo.Lib.PlainObject

/-!
# Binding a request to a DTO

`DefaultBinder` reads for each field of a DTO the value under its key in one part of
the request, converts it and writes it to the DTO. The parts are records that
adapters build, some as ordinary objects, some without a prototype.
-/

namespace Fluo.Http.Binding

open Js
open PlainObject (objectNames)

structure FrameworkRequestFile where
  fieldname : JsString
  originalname : JsString
  mimetype : JsString
  buffer : List UInt8
  size : Nat
  deriving DecidableEq, Repr

/-- What a field can be bound to: something that was sent, or what a record inherits. -/
inductive Value (A : Type) where
  | data (a : A)
  | header (value : HeaderValue)
  | files (files : List FrameworkRequestFile)
  | builtin (name : JsString)
  deriving DecidableEq, Repr

/-- A record of a request. Its prototype is that of ordinary objects, or `null`; an
entry can be `undefined`. -/
structure Dictionary (A : Type) where
  own : OrderedMap JsString (Option A)
  ordinary : Bool

inductive Body (A : Type) where
  | absent
  | plain (object : Dictionary A)
  /-- What is no plain object, with its own enumerable keys. -/
  | other (keys : List JsString)

structure Request (A : Type) where
  params : Dictionary A
  query : Dictionary A
  cookies : Dictionary A
  headers : List (JsString × Option HeaderValue)
  body : Body A
  files : Option (List FrameworkRequestFile)

section

variable {A : Type}

/-- `record[key]`, where `undefined` is `none`. -/
def Dictionary.read (d : Dictionary A) (key : JsString) : Option (Value A) :=
  match d.own.get key with
  | some v => v.map .data
  | none => if d.ordinary = true ∧ key ∈ objectNames then some (.builtin key) else none

/-! ## The plan of a DTO -/

inductive MetadataSource
  | path
  | query
  | header
  | cookie
  | body
  | files
  deriving DecidableEq, Repr

inductive ConverterLike
  | converter (id : Nat)
  | token (id : Nat)
  deriving DecidableEq, Repr

structure DtoFieldBindingMetadata where
  converter : Option ConverterLike
  key : Option JsString
  optional : Bool
  source : MetadataSource

/-- The bound properties of a DTO, each with its metadata. -/
structure DtoBindingSchema where
  fields : List (PropertyKey × DtoFieldBindingMetadata)
  distinct : (fields.map Prod.fst).Nodup

def toFieldName : PropertyKey → JsString
  | .named s => s
  | .symbol _ description => text "Symbol(" ++ description ++ text ")"

def resolveSourceKey (propertyKey : PropertyKey) (key : Option JsString) : JsString := key.getD (toFieldName propertyKey)

structure PlanEntry where
  converter : Option ConverterLike
  fieldName : JsString
  optional : Bool
  propertyKey : PropertyKey
  source : MetadataSource
  sourceKey : JsString

def entriesOf (schema : DtoBindingSchema) : List PlanEntry :=
  schema.fields.map fun (propertyKey, metadata) =>
    ⟨metadata.converter, toFieldName propertyKey, metadata.optional, propertyKey, metadata.source,
      resolveSourceKey propertyKey metadata.key⟩

def bodyKeys (schema : DtoBindingSchema) : List JsString :=
  ((entriesOf schema).filter (·.source = .body)).map (·.sourceKey)

def hasFieldConverters (schema : DtoBindingSchema) : Bool := (entriesOf schema).any (·.converter.isSome)

variable (host : CaseMapping)

def getRequestHeader (headers : List (JsString × Option HeaderValue)) (name : JsString) : Option HeaderValue :=
  (normalizeHeaderName host name).bind fun normalized =>
    (headers.filter fun entry => host.toLowerCase entry.1 = normalized).findSome? Prod.snd

/-- A portable file has the fields that are modelled. -/
def createSourceReader (source : MetadataSource) (sourceKey : JsString) (request : Request A) : Option (Value A) :=
  match source with
  | .path => request.params.read sourceKey
  | .query => request.query.read sourceKey
  | .header => (getRequestHeader host request.headers sourceKey).map .header
  | .cookie => request.cookies.read sourceKey
  | .body =>
    match request.body with
    | .plain object => object.read sourceKey
    | _ => none
  | .files => request.files.map fun files => .files (files.filter (·.fieldname = sourceKey))

def PlanEntry.read (e : PlanEntry) (request : Request A) : Option (Value A) := createSourceReader host e.source e.sourceKey request

/-! ## The body -/

inductive UnknownFields
  | reject
  | strip
  deriving DecidableEq

inductive NonObjects
  | reject
  | empty
  deriving DecidableEq

structure InputPolicyOptions where
  unknownFields : Option UnknownFields
  nonObjects : Option NonObjects

/-- The policy of the route goes before that of the DTO, option by option. -/
def getInputPolicy (dto route : InputPolicyOptions) : InputPolicyOptions :=
  ⟨route.unknownFields.or dto.unknownFields, route.nonObjects.or dto.nonObjects⟩

structure InputErrorDetail where
  code : JsString
  field : Option JsString
  message : JsString
  source : MetadataSource
  deriving DecidableEq, Repr

/-- A bad request with its details, or what a converter threw. -/
inductive BindingError (E : Type) where
  | badRequest (message : JsString) (details : List InputErrorDetail)
  | thrown (error : E)
  deriving DecidableEq, Repr

def dangerousKeys : List JsString := [text "__proto__", text "constructor", text "prototype"]

def bodyMessage : JsString := text "Request body must be a plain object."

/-- What is wrong with a key of the body. -/
def keyDetail (plain : Bool) (declared : List JsString) (policy : InputPolicyOptions) (key : JsString) : Option InputErrorDetail :=
  if key ∈ dangerousKeys then
    some ⟨text "DANGEROUS_KEY", some key, text "Dangerous body key " ++ key ++ text " is not allowed.", .body⟩
  else if plain = true ∧ policy.unknownFields ≠ some .strip ∧ key ∉ declared then
    some ⟨text "UNKNOWN_FIELD", some key, text "Unknown body field " ++ key ++ text ".", .body⟩
  else none

def Dictionary.strip (d : Dictionary A) (declared : List JsString) : Dictionary A :=
  ⟨d.own.filter fun key _ => key ∈ declared, false⟩

def unsupported {E : Type} (details : List InputErrorDetail) : BindingError E :=
  .badRequest (text "Request body contains unsupported fields.") details

def prepareBindingRequest {E : Type} (request : Request A) (declared : List JsString) (policy : InputPolicyOptions) :
    Except (BindingError E) (Request A) :=
  match request.body with
  | .absent => .ok request
  | .other keys =>
    if policy.nonObjects ≠ some .empty then .error (.badRequest bodyMessage [⟨text "INVALID_BODY", none, bodyMessage, .body⟩])
    else
      let details := keys.filterMap (keyDetail false declared policy)
      if 0 < details.length then .error (unsupported details)
      else .ok { request with body := .plain ⟨.empty, true⟩ }
  | .plain object =>
    let details := object.own.keys.filterMap (keyDetail true declared policy)
    if 0 < details.length then .error (unsupported details)
    else if policy.unknownFields = some .strip then .ok { request with body := .plain (object.strip declared) }
    else .ok request

/-! ## Binding -/

/-- A DTO has its fields as properties of its own, so an assignment meets no setter. -/
abbrev Dto (A : Type) := OrderedMap PropertyKey (Value A)

structure ConverterTarget where
  key : JsString
  propertyKey : PropertyKey
  source : MetadataSource

/-- A converter, once its promise is settled. -/
abbrev Converter (A E : Type) := Value A → ConverterTarget → Except E (Value A)

def sourceName : MetadataSource → JsString
  | .path => text "path"
  | .query => text "query"
  | .header => text "header"
  | .cookie => text "cookie"
  | .body => text "body"
  | .files => text "files"

def missingField (e : PlanEntry) : InputErrorDetail :=
  ⟨text "MISSING_FIELD", some e.fieldName,
    text "Missing required " ++ sourceName e.source ++ text " field " ++ e.sourceKey ++ text ".", e.source⟩

/-- The DTO and the details so far. -/
abbrev Bound (A : Type) := Dto A × List InputErrorDetail

variable {E : Type}

def finish (bound : Bound A) : Except (BindingError E) (Dto A) :=
  if 0 < bound.2.length then .error (.badRequest (text "Request binding failed.") bound.2) else .ok bound.1

def bindDirectly (request : Request A) (entries : List PlanEntry) (value : Dto A) : Bound A :=
  entries.foldl (fun (bound : Bound A) entry =>
    match entry.read host request with
    | none => if entry.optional then bound else (bound.1, bound.2 ++ [missingField entry])
    | some rawValue => (bound.1.set entry.propertyKey rawValue, bound.2)) (value, [])

/-- `resolveConverter`, for one binding: an instance of a token is kept in a cache, so it is
a function of the token. -/
abbrev Resolve (A E : Type) := ConverterLike → Except E (Option (Converter A E))

def PlanEntry.target (e : PlanEntry) : ConverterTarget := ⟨e.sourceKey, e.propertyKey, e.source⟩

/-- The global converters one after another, then that of the field. -/
def PlanEntry.convert (e : PlanEntry) (resolve : Resolve A E) (globalConverters : List (Converter A E)) (rawValue : Value A) :
    Except E (Value A) :=
  (globalConverters.foldlM (fun convertedValue (convert : Converter A E) => convert convertedValue e.target) rawValue).bind fun convertedValue =>
    match e.converter with
    | none => .ok convertedValue
    | some converter =>
      (resolve converter).bind fun
        | none => .ok convertedValue
        | some fieldConverter => fieldConverter convertedValue e.target

def bindConverted (resolve : Resolve A E) (globalConverters : List (Converter A E)) (request : Request A) (entries : List PlanEntry)
    (value : Dto A) : Except E (Bound A) :=
  entries.foldlM (fun (bound : Bound A) entry =>
    match entry.read host request with
    | none => .ok (if entry.optional then bound else (bound.1, bound.2 ++ [missingField entry]))
    | some rawValue =>
      (entry.convert resolve globalConverters rawValue).map fun convertedValue =>
        (bound.1.set entry.propertyKey convertedValue, bound.2)) (value, [])

def resolveAll (resolve : Resolve A E) (converters : List ConverterLike) : Except E (List (Converter A E)) :=
  (converters.mapM resolve).map (List.filterMap id)

/-- `DefaultBinder.bind`; `value` is the new DTO. -/
def bind (resolve : Resolve A E) (converters : List ConverterLike) (schema : DtoBindingSchema) (policy : InputPolicyOptions)
    (value : Dto A) (originalRequest : Request A) : Except (BindingError E) (Dto A) :=
  (prepareBindingRequest originalRequest (bodyKeys schema) policy).bind fun request =>
    if converters.length = 0 ∧ hasFieldConverters schema = false then
      finish (bindDirectly host request (entriesOf schema) value)
    else
      match (resolveAll resolve converters).bind fun globalConverters =>
          bindConverted host resolve globalConverters request (entriesOf schema) value with
      | .error error => .error (.thrown error)
      | .ok bound => finish bound

end

end Fluo.Http.Binding
