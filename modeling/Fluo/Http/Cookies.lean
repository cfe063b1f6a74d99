import Fluo.Lib.OrderedMap
import Fluo.Lib.JsDate
import Fluo.Lib.UriComponent
import Fluo.Http.Connection

/-!
# Cookies

The serializer of `Set-Cookie` fields with its validators, and the parsers of the
`Cookie` header of the Web and the Node adapter.
-/

namespace Fluo.Http

open Js Code

/-- A value of a cookie option. A number is an integer or not, a date has a time
unless it is invalid. -/
inductive OptionValue where
  | undefined
  | boolean (b : Bool)
  | integer (n : Int)
  | fraction
  | string (s : JsString)
  | date (time : Option Int)
  | other
  deriving DecidableEq, Repr

structure CookieOptionValues where
  domain : OptionValue
  expires : OptionValue
  httpOnly : OptionValue
  maxAgeSeconds : OptionValue
  path : OptionValue
  sameSite : OptionValue
  secure : OptionValue
  deriving DecidableEq, Repr

/-- A `TypeError` of the validators, one of the engine, or the `URIError` of
`encodeURIComponent`. -/
inductive CookieError where
  | typeError (message : JsString)
  | engine
  | uriError
  deriving DecidableEq, Repr

/-! ## Validation -/

def isAlphanumeric (u : UInt16) : Bool :=
  (unit '0' ≤ u && u ≤ unit '9') || (unit 'A' ≤ u && u ≤ unit 'Z') || (unit 'a' ≤ u && u ≤ unit 'z')

def isTokenUnit (u : UInt16) : Bool := isAlphanumeric u || u ∈ text "!#$%&'*+-.^_\x60|~"

/-- `COOKIE_NAME_TOKEN` -/
def isCookieName (name : JsString) : Bool := name ≠ [] && name.all isTokenUnit

/-- `[A-Za-z0-9](?:[A-Za-z0-9-]{0,61}[A-Za-z0-9])?` -/
def isDomainLabel (label : JsString) : Bool :=
  label.length ≤ 63 && label.all (fun u => isAlphanumeric u || u = unit '-') &&
    label.head?.any isAlphanumeric && label.getLast?.any isAlphanumeric

def withoutDot (domain : JsString) : JsString := if domain.head? = some (unit '.') then domain.drop 1 else domain

/-- `COOKIE_DOMAIN` -/
def isCookieDomain (domain : JsString) : Bool := ((withoutDot domain).splitOn (unit '.')).all isDomainLabel

def validateCookieName (name : JsString) : Except CookieError Unit :=
  if isCookieName name then .ok () else .error (.typeError (text "Cookie names must be non-empty HTTP tokens."))

def validateOptionalBoolean (optionName : JsString) : OptionValue → Except CookieError Unit
  | .undefined => .ok ()
  | .boolean _ => .ok ()
  | _ => .error (.typeError (optionName ++ text " must be a boolean when provided."))

def validateMaxAge : OptionValue → Except CookieError Unit
  | .undefined => .ok ()
  | .integer n =>
    if n.natAbs < 2 ^ 53 ∧ 0 ≤ n then .ok ()
    else .error (.typeError (text "maxAgeSeconds must be a non-negative safe integer."))
  | _ => .error (.typeError (text "maxAgeSeconds must be a non-negative safe integer."))

def validateDomain : OptionValue → Except CookieError Unit
  | .undefined => .ok ()
  | .string domain =>
    let host := withoutDot domain
    if host.length = 0 ∨ host.length > 253 ∨ isCookieDomain domain = false then
      .error (.typeError (text "Cookie domains must be valid ASCII DNS names."))
    else .ok ()
  | _ => .error .engine

def validatePath : OptionValue → Except CookieError Unit
  | .undefined => .ok ()
  | .string path =>
    if path.length = 0 then .error (.typeError (text "Cookie paths must be non-empty RFC 6265 path values."))
    else if path.any fun u => u.toNat < 0x20 || u.toNat = 0x3b || u.toNat > 0x7e then
      .error (.typeError (text "Cookie paths must be RFC 6265 path values."))
    else .ok ()
  | _ => .error (.typeError (text "Cookie paths must be non-empty RFC 6265 path values."))

def formatExpiry : OptionValue → Except CookieError JsString
  | .date none => .error (.typeError (text "Cookie expiry must be a valid Date."))
  | .date (some timestamp) =>
    let year := yearFromDay (dayFromTime timestamp)
    if year < 1601 ∨ year > 9999 then
      .error (.typeError (text "Cookie expiry must have a four-digit RFC 6265 year."))
    else .ok (toUTCString timestamp)
  | _ => .error .engine

def normalizeSameSite (sameSite secure : OptionValue) : Except CookieError (Option JsString) :=
  if sameSite = .undefined then .ok none
  else if sameSite = .string (text "lax") then .ok (some (text "Lax"))
  else if sameSite = .string (text "strict") then .ok (some (text "Strict"))
  else if sameSite = .string (text "none") then
    if secure ≠ .boolean true then .error (.typeError (text "SameSite=None cookies require secure: true."))
    else .ok (some (text "None"))
  else .error (.typeError (text "sameSite must be lax, none, or strict."))

/-! ## Serialization -/

def decimal (n : Int) : JsString := (if n < 0 then text "-" else []) ++ digitsIn 10 n.natAbs

def OptionValue.text : OptionValue → JsString
  | .integer n => decimal n
  | .string s => s
  | _ => []

/-- An attribute that is written when its option is given. -/
def optionalPart (name : JsString) (value : OptionValue) : List JsString :=
  if value = .undefined then [] else [name ++ value.text]

def expiresPart (expires : OptionValue) : Except CookieError (List JsString) :=
  if expires = .undefined then .ok [] else (formatExpiry expires).map fun expiry => [text "Expires=" ++ expiry]

def flagPart (name : JsString) (value : OptionValue) : List JsString := if value = .boolean true then [name] else []

def sameSitePart (sameSite : Option JsString) : List JsString :=
  match sameSite with
  | some sameSite => [text "SameSite=" ++ sameSite]
  | none => []

def encodedOrError (value : JsString) : Except CookieError JsString :=
  match encodeURIComponent value with
  | some encoded => .ok encoded
  | none => .error .uriError

def serializeCookie (name value : JsString) (options : CookieOptionValues) : Except CookieError JsString := do
  validateCookieName name
  validateOptionalBoolean (text "httpOnly") options.httpOnly
  validateOptionalBoolean (text "secure") options.secure
  validateMaxAge options.maxAgeSeconds
  validateDomain options.domain
  validatePath options.path
  let sameSite ← normalizeSameSite options.sameSite options.secure
  let encodedValue ← encodedOrError value
  let expires ← expiresPart options.expires
  .ok ((text "; ").intercalate ([name ++ text "=" ++ encodedValue] ++ optionalPart (text "Max-Age=") options.maxAgeSeconds ++
    expires ++ optionalPart (text "Path=") options.path ++ optionalPart (text "Domain=") options.domain ++
    flagPart (text "Secure") options.secure ++ flagPart (text "HttpOnly") options.httpOnly ++ sameSitePart sameSite))

/-- The headers of a response, as they were set. -/
abbrev ResponseHeaders := List (JsString × JsString)

def setCookie (response : ResponseHeaders) (name value : JsString) (options : CookieOptionValues) :
    Except CookieError ResponseHeaders :=
  (serializeCookie name value options).map fun field => response ++ [(text "Set-Cookie", field)]

/-! ## Parsing -/

def decodeCookieValue (raw : JsString) : JsString := (decodeURIComponent raw).getD raw

def cookiePair (pair : JsString) : JsString × JsString :=
  match indexOf [unit '='] pair with
  | none => (trim pair, [])
  | some index => (trim (pair.take index), decodeCookieValue (trim (pair.drop (index + 1))))

/-- `Object.fromEntries` -/
def fromEntries (entries : List (JsString × JsString)) : OrderedMap JsString JsString :=
  entries.foldl (fun m e => m.set e.1 e.2) .empty

def cookiesOf (header : JsString) : OrderedMap JsString JsString :=
  if header = [] then .empty
  else fromEntries ((((header.splitOn (unit ';')).map trim).filter (· ≠ [])).map cookiePair)

/-- A `Cookie` header as Node gives it. -/
inductive CookieHeader where
  | missing
  | single (value : JsString)
  | several (values : List JsString)

/-- `parseCookieHeader` of the Web adapter. -/
def webParseCookieHeader : Option JsString → OrderedMap JsString JsString
  | none => .empty
  | some header => cookiesOf header

/-- `parseCookieHeader` of the Node adapter. -/
def nodeParseCookieHeader : CookieHeader → OrderedMap JsString JsString
  | .missing => .empty
  | .single value => cookiesOf value
  | .several values => cookiesOf ((text "; ").intercalate values)

end Fluo.Http
