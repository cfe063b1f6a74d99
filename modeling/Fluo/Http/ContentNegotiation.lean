import Fluo.Http.ConditionalPolicy
import Fluo.Lib.Preference
import Mathlib.Data.List.Lex
import Mathlib.Order.OrderDual

/-!
# Content negotiation

The formatter of a response is selected from those that the route may produce,
by the `Accept` header of the request.
-/

namespace Fluo.Http

open Js Code Preference

def semicolon : UInt16 := unit ';'

def equalsSign : UInt16 := unit '='

def asterisk : UInt16 := unit '*'

/-- A formatter object; `id` stands for its identity and its `format`. -/
structure ResponseFormatter where
  id : Nat
  mediaType : JsString
  deriving DecidableEq, Repr

structure ContentNegotiationOptions where
  defaultMediaType : Option JsString
  formatters : List ResponseFormatter

/-- A media range of the `Accept` header; its quality is in thousandths. -/
structure AcceptToken where
  mediaRange : JsString
  order : Nat
  quality : Nat
  specificity : Nat
  deriving DecidableEq, Repr

/-- Thrown as `406 Not Acceptable`. -/
inductive NegotiationError
  | notAcceptable (message : JsString)
  deriving DecidableEq, Repr

def noAcceptableRepresentation : NegotiationError :=
  .notAcceptable (text "No acceptable response representation found.")

/-! ## Media ranges -/

/-- Up to three decimals of a number below one, in thousandths. -/
def thousandths (decimals : JsString) : Nat := numberIn 10 decimals * 10 ^ (3 - decimals.length)

def parseQuality : JsString → Option Nat
  | [] => none
  | [u] => if u = unit '0' then some 0 else if u = unit '1' then some 1000 else none
  | u :: v :: decimals =>
    if v ≠ dot ∨ 3 < decimals.length then none
    else if u = unit '0' ∧ decimals.all isDigit then some (thousandths decimals)
    else if u = unit '1' ∧ decimals.all (· = unit '0') then some 1000
    else none

def isValidMediaRange (mediaRange : JsString) : Bool :=
  match mediaRange.splitOn slash with
  | [type, subtype] =>
    if type = [] ∨ subtype = [] then false
    else if type = [asterisk] then subtype = [asterisk]
    else if asterisk ∈ type then false
    else if subtype = [asterisk] then true
    else if (text "*+").isPrefixOf subtype then 2 < subtype.length && asterisk ∉ subtype.drop 2
    else asterisk ∉ subtype
  | _ => false

def getMediaRangeSpecificity (mediaRange : JsString) : Nat :=
  if mediaRange = text "*/*" then 0
  else if (text "/*").isSuffixOf mediaRange then 1
  else if (indexOf (text "/*+") mediaRange).isSome then 2 else 3

/-- The first two pieces of a media type or range. -/
def typeAndSubtype (mediaType : JsString) : Option (JsString × JsString) :=
  match mediaType.splitOn slash with
  | type :: subtype :: _ => if type = [] ∨ subtype = [] then none else some (type, subtype)
  | _ => none

def matchesMediaRange (mediaRange mediaType : JsString) : Bool :=
  if mediaRange = text "*/*" then true
  else
    match typeAndSubtype mediaRange, typeAndSubtype mediaType with
    | some (rangeType, rangeSubtype), some (type, subtype) =>
      if rangeType ≠ [asterisk] ∧ rangeType ≠ type then false
      else if rangeSubtype = [asterisk] then true
      else if (text "*+").isPrefixOf rangeSubtype then (rangeSubtype.drop 1).isSuffixOf subtype
      else rangeSubtype = subtype
    | _, _ => false

section

variable (host : CaseMapping)

def normalizeMediaType (value : JsString) : JsString := host.toLowerCase (trim ((value.splitOn semicolon).headD []))

/-- The quality that the parameters of a media range give, none when they are
malformed. -/
def parameterQuality (seen : Option Nat) : List JsString → Option Nat
  | [] => some (seen.getD 1000)
  | parameterPart :: rest =>
    match (trim parameterPart).splitOn equalsSign with
    | [] => parameterQuality seen rest
    | name :: rawValues =>
      if host.toLowerCase name = text "q" then
        match seen, rawValues with
        | none, [rawValue] => (parseQuality (trim rawValue)).bind fun quality => parameterQuality (some quality) rest
        | _, _ => none
      else parameterQuality seen rest

def parseAcceptToken (order : Nat) (token : JsString) : Option AcceptToken :=
  match (trim token).splitOn semicolon with
  | [] => none
  | rawMediaRange :: parameterParts =>
    let mediaRange := normalizeMediaType host rawMediaRange
    if isValidMediaRange mediaRange then
      (parameterQuality host none parameterParts).map fun quality =>
        ⟨mediaRange, order, quality, getMediaRangeSpecificity mediaRange⟩
    else none

def parseAcceptHeader (acceptHeader : JsString) : List AcceptToken :=
  (acceptHeader.splitOn comma).zipIdx.filterMap fun entry => parseAcceptToken host entry.2 entry.1

def selectMostSpecificAcceptToken (mediaType : JsString) (acceptTokens : List AcceptToken) : Option AcceptToken :=
  acceptTokens.foldl (fun selected token =>
    if !matchesMediaRange token.mediaRange mediaType then selected
    else
      match selected with
      | none => some token
      | some best =>
        if best.specificity < token.specificity ∨ token.specificity = best.specificity ∧ token.order < best.order then
          some token
        else selected) none

/-! ## Formatters -/

/-- `normalizedMediaTypes` of the source are those of the formatters. -/
structure ResolvedContentNegotiation where
  defaultFormatter : ResponseFormatter
  formatters : List ResponseFormatter
  deriving DecidableEq, Repr

/-- The formatters whose media types are new and not blank. -/
def distinctFormatters (seen : List JsString) : List ResponseFormatter → List ResponseFormatter
  | [] => []
  | formatter :: rest =>
    let mediaType := normalizeMediaType host formatter.mediaType
    if mediaType = [] ∨ mediaType ∈ seen then distinctFormatters seen rest
    else formatter :: distinctFormatters (mediaType :: seen) rest

def resolveContentNegotiation (options : ContentNegotiationOptions) : Option ResolvedContentNegotiation :=
  match distinctFormatters host [] options.formatters with
  | [] => none
  | first :: rest =>
    let defaultMediaType := normalizeMediaType host (options.defaultMediaType.getD [])
    let defaultFormatter :=
      if defaultMediaType = [] then first
      else ((first :: rest).find? fun formatter => normalizeMediaType host formatter.mediaType = defaultMediaType).getD first
    some ⟨defaultFormatter, first :: rest⟩

/-- `produces` are the media types of the route. -/
def resolveAllowedFormatters (produces : List JsString) (contentNegotiation : ResolvedContentNegotiation) :
    List ResponseFormatter :=
  if produces = [] then contentNegotiation.formatters
  else
    let allowed := produces.map (normalizeMediaType host)
    contentNegotiation.formatters.filter fun formatter => normalizeMediaType host formatter.mediaType ∈ allowed

def resolveDefaultFormatter (allowedFormatters : List ResponseFormatter)
    (contentNegotiation : ResolvedContentNegotiation) : ResponseFormatter :=
  let defaultMediaType := normalizeMediaType host contentNegotiation.defaultFormatter.mediaType
  match allowedFormatters.find? fun formatter => normalizeMediaType host formatter.mediaType = defaultMediaType with
  | some formatter => formatter
  | none => allowedFormatters.headD contentNegotiation.defaultFormatter

def readJoinedNonEmptyRequestHeaderValues (request : FrameworkRequest) (name : JsString) : Option JsString :=
  match normalizeHeaderName host name with
  | none => none
  | some normalizedHeaderName =>
    let values := request.headers.filterMap fun entry =>
      if host.toLowerCase entry.1 = normalizedHeaderName then readJoinedNonEmptyHeaderValue entry.2 else none
    if values = [] then none else some (join comma values)

def readAcceptHeader (request : FrameworkRequest) : Option JsString :=
  readJoinedNonEmptyRequestHeaderValues host request (text "accept")

/-- One turn of the loop over the allowed formatters. -/
def considerFormatter (acceptTokens : List AcceptToken) (defaultFormatter : ResponseFormatter)
    (selected : Option (ResponseFormatter × AcceptToken)) (formatter : ResponseFormatter) :
    Option (ResponseFormatter × AcceptToken) :=
  match selectMostSpecificAcceptToken (normalizeMediaType host formatter.mediaType) acceptTokens with
  | none => selected
  | some token =>
    if token.quality = 0 then selected
    else
      match selected with
      | none => some (formatter, token)
      | some (_, best) =>
        if token.quality < best.quality ∨ token.quality = best.quality ∧ token.specificity < best.specificity then selected
        else if best.quality < token.quality ∨ best.specificity < token.specificity ∨ formatter = defaultFormatter then
          some (formatter, token)
        else selected

def selectResponseFormatter (produces : List JsString) (request : FrameworkRequest)
    (contentNegotiation : ResolvedContentNegotiation) : Except NegotiationError ResponseFormatter :=
  let allowedFormatters := resolveAllowedFormatters host produces contentNegotiation
  if allowedFormatters = [] then .error noAcceptableRepresentation
  else
    let defaultFormatter := resolveDefaultFormatter host allowedFormatters contentNegotiation
    match readAcceptHeader host request with
    | none => .ok defaultFormatter
    | some acceptHeader =>
      let acceptTokens := parseAcceptHeader host acceptHeader
      if acceptTokens = [] then .error noAcceptableRepresentation
      else
        match allowedFormatters.foldl (considerFormatter host acceptTokens defaultFormatter) none with
        | some (formatter, _) => .ok formatter
        | none => .error noAcceptableRepresentation

end

end Fluo.Http
