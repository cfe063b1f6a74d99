import Fluo.Http.Connection
import Fluo.Lib.JsDate

/-!
# Conditional requests

Entity tags, HTTP dates, and the outcome that the conditional fields of a
request select for a representation.
-/

namespace Fluo.Http

open Fluo.Js Fluo.Code

inductive EntityTagStrength
  | strong
  | weak
  deriving DecidableEq, Repr

structure EntityTag where
  opaqueValue : JsString
  strength : EntityTagStrength
  deriving DecidableEq, Repr

/-- A date is `none` when it is not valid, else its time. -/
structure ResponseValidators where
  etag : Option EntityTag
  lastModified : Option (Option Int)
  deriving DecidableEq, Repr

inductive ConditionalRequestResolution
  | missing
  | exist (validators : Option ResponseValidators)
  deriving DecidableEq, Repr

inductive ConditionalRequestOutcome
  | notModified
  | preconditionFailed
  | proceed
  deriving DecidableEq, Repr

structure ConditionalRequestResult where
  outcome : ConditionalRequestOutcome
  validators : Option ResponseValidators
  deriving DecidableEq, Repr

inductive ParsedEntityTagList
  | invalid
  | wildcard
  | tags (tags : List EntityTag)
  deriving DecidableEq, Repr

def quote : UInt16 := unit '"'

/-! ## Entity tags -/

def formatEntityTag (tag : EntityTag) : JsString :=
  (match tag.strength with
    | .weak => text "W/"
    | .strong => []) ++ quote :: (tag.opaqueValue ++ [quote])

def isOptionalWhitespace (u : UInt16) : Bool := u = unit ' ' || u = unit '\t'

def isEntityTagCharacter (u : UInt16) : Bool := u = 0x21 || (0x23 ≤ u && u ≤ 0x7e) || (0x80 ≤ u && u ≤ 0xff)

/-- A surrogate is not a tag character, so code units are looked at as well as code points. -/
def isValidEntityTag (tag : EntityTag) : Bool := tag.opaqueValue.all isEntityTagCharacter

def skipOptionalWhitespace (value : JsString) : JsString := value.dropWhile isOptionalWhitespace

/-- One tag at the start of a text, and the text behind it. -/
def parseEntityTag (value : JsString) : Option (EntityTag × JsString) :=
  let weak := (text "W/").isPrefixOf value
  match if weak then value.drop 2 else value with
  | [] => none
  | u :: rest =>
    if u = quote then
      let opaqueValue := rest.takeWhile (· ≠ quote)
      match rest.dropWhile (· ≠ quote) with
      | [] => none
      | _ :: rest =>
        if opaqueValue.all isEntityTagCharacter then some (⟨opaqueValue, if weak then .weak else .strong⟩, rest)
        else none
    else none

theorem parseEntityTag_shorter {value rest : JsString} {tag : EntityTag} (h : parseEntityTag value = some (tag, rest)) :
    rest.length < value.length := by
  have skipped : (if (text "W/").isPrefixOf value then value.drop 2 else value).length ≤ value.length := by
    split
    · rw [List.length_drop]
      exact Nat.sub_le _ _
    · exact Nat.le_refl _
  unfold parseEntityTag at h
  dsimp only at h
  split at h
  · cases h
  · next u inner start =>
    rw [start, List.length_cons] at skipped
    split at h
    · split at h
      · cases h
      · next v behind ends =>
        have shorter := List.length_dropWhile_le (· ≠ quote) inner
        rw [ends, List.length_cons] at shorter
        split at h
        · cases h
          omega
        · cases h
    · cases h

/-- The tags from the start of a text to its end. -/
def parseEntityTags (value : JsString) : Option (List EntityTag) :=
  match _parsed : parseEntityTag value with
  | none => none
  | some (tag, rest) =>
    match _behind : skipOptionalWhitespace rest with
    | [] => some [tag]
    | u :: rest' =>
      if u = comma then
        if skipOptionalWhitespace rest' = [] then none
        else (parseEntityTags (skipOptionalWhitespace rest')).map (tag :: ·)
      else none
  termination_by value.length
  decreasing_by
    have shorter := parseEntityTag_shorter _parsed
    have skipped := List.length_dropWhile_le isOptionalWhitespace rest
    have skipped' := List.length_dropWhile_le isOptionalWhitespace rest'
    rw [← skipOptionalWhitespace, _behind, List.length_cons] at skipped
    rw [← skipOptionalWhitespace] at skipped'
    omega

def parseEntityTagList (value : JsString) : ParsedEntityTagList :=
  match skipOptionalWhitespace value with
  | [] => .invalid
  | u :: rest =>
    if u = unit '*' then if skipOptionalWhitespace rest = [] then .wildcard else .invalid
    else
      match parseEntityTags (u :: rest) with
      | none => .invalid
      | some tags => .tags tags

def matchesEntityTag (parsed : ParsedEntityTagList) (current : Option EntityTag) (comparison : EntityTagStrength)
    (resourceExists : Bool) : Bool :=
  match parsed with
  | .wildcard => resourceExists
  | .invalid => false
  | .tags tags => current.any fun current => isValidEntityTag current && tags.any fun requested =>
      requested.opaqueValue = current.opaqueValue &&
        (comparison = .weak || (requested.strength = .strong && current.strength = .strong))

/-! ## HTTP dates -/

def httpMonths : List JsString :=
  ["Jan", "Feb", "Mar", "Apr", "May", "Jun", "Jul", "Aug", "Sep", "Oct", "Nov", "Dec"].map text

def httpWeekdays : List JsString := ["Sun", "Mon", "Tue", "Wed", "Thu", "Fri", "Sat"].map text

def httpWeekdayNames : List JsString :=
  ["Sunday", "Monday", "Tuesday", "Wednesday", "Thursday", "Friday", "Saturday"].map text

def parseMonth (value : JsString) : Option Nat := httpMonths.idxOf? value

def parseDecimal (value : JsString) : Option Nat := if isDigits value then some (numberIn 10 value) else none

def parseClock (hour minute second : JsString) : Option (Nat × Nat × Nat) :=
  match parseDecimal hour, parseDecimal minute, parseDecimal second with
  | some hour, some minute, some second =>
    if 23 < hour ∨ 59 < minute ∨ 59 < second then none else some (hour, minute, second)
  | _, _, _ => none

def createHttpDateTimestamp (weekday day month year hour minute second : JsString) (weekdayNames : List JsString) :
    Option Int :=
  match parseDecimal day, parseMonth month, parseDecimal year, parseClock hour minute second with
  | some parsedDay, some parsedMonth, some parsedYear, some (hour, minute, second) =>
    if parsedDay < 1 ∨ 31 < parsedDay ∨ weekday ∉ weekdayNames then none
    else
      let date := makeDate (makeDay parsedYear parsedMonth parsedDay) (makeTime hour minute second)
      let actual := dayFromTime date
      if yearFromDay actual ≠ parsedYear ∨ monthFromDay actual ≠ parsedMonth ∨ dateFromDay actual ≠ parsedDay ∨
          weekdayNames[weekDay actual]? ≠ some weekday then none
      else some date
  | _, _, _, _ => none

/-- Reads a part of a pattern: the groups that it captures, and what is behind it. -/
abbrev Reader := JsString → Option (List JsString × JsString)

def exactly (part : String) : Reader := fun value =>
  if (text part).isPrefixOf value then some ([], value.drop (text part).length) else none

def oneOf (names : List JsString) : Reader := fun value =>
  (names.find? (·.isPrefixOf value)).map fun name => ([name], value.drop name.length)

def digits (n : Nat) : Reader := fun value =>
  if (value.take n).length = n ∧ (value.take n).all isDigit then some ([value.take n], value.drop n) else none

/-- A digit behind a space, or two digits. -/
def spacedDigits : Reader
  | u :: v :: rest => if (u = unit ' ' || isDigit u) && isDigit v then some ([[u, v]], rest) else none
  | _ => none

/-- The groups of a pattern that matches a whole text. -/
def exec : List Reader → JsString → Option (List JsString)
  | [], value => if value = [] then some [] else none
  | reader :: readers, value =>
    (reader value).bind fun (groups, rest) => (exec readers rest).map (groups ++ ·)

def clockPattern : List Reader := [digits 2, exactly ":", digits 2, exactly ":", digits 2]

def imfFixdate : List Reader :=
  [oneOf httpWeekdays, exactly ", ", digits 2, exactly " ", oneOf httpMonths, exactly " ", digits 4, exactly " "] ++
    clockPattern ++ [exactly " GMT"]

def rfc850 : List Reader :=
  [oneOf httpWeekdayNames, exactly ", ", digits 2, exactly "-", oneOf httpMonths, exactly "-", digits 2, exactly " "] ++
    clockPattern ++ [exactly " GMT"]

def asctime : List Reader :=
  [oneOf httpWeekdays, exactly " ", oneOf httpMonths, exactly " ", spacedDigits, exactly " "] ++ clockPattern ++
    [exactly " ", digits 4]

def numeral (n : Int) : JsString := (if n < 0 then text "-" else []) ++ zeroPadded 1 n.natAbs

def parseHttpDate (referenceYear : Int) (header : Option JsString) : Option Int :=
  match header with
  | none | some [] => none
  | some header =>
    match exec imfFixdate header with
    | some [weekday, day, month, year, hour, minute, second] =>
      createHttpDateTimestamp weekday day month year hour minute second httpWeekdays
    | _ =>
      match exec rfc850 header with
      | some [weekday, day, month, year, hour, minute, second] =>
        (parseDecimal year).bind fun twoDigitYear =>
          let year := referenceYear / 100 * 100 + twoDigitYear
          let year := if referenceYear + 50 < year then year - 100 else year
          createHttpDateTimestamp weekday day month (numeral year) hour minute second httpWeekdayNames
      | _ =>
        match exec asctime header with
        | some [weekday, month, day, hour, minute, second, year] =>
          createHttpDateTimestamp weekday (trim day) month year hour minute second httpWeekdays
        | _ => none

def normalizeLastModified (lastModified : Option (Option Int)) : Option Int :=
  lastModified.join.map fun time => time / 1000 * 1000

/-! ## The outcome -/

def readJoinedNonEmptyHeaderValue : Option HeaderValue → Option JsString
  | none => none
  | some (.one value) => nonEmpty (trim value)
  | some (.many values) =>
    match (values.map trim).filter (· ≠ []) with
    | [] => none
    | normalizedValues => some (join comma normalizedValues)

section

variable (host : CaseMapping)

def readFirstNonEmptyRequestHeaderValue (request : FrameworkRequest) (name : JsString) : Option JsString :=
  match normalizeHeaderName host name with
  | none => none
  | some normalizedHeaderName => request.headers.findSome? fun entry =>
      if host.toLowerCase entry.1 = normalizedHeaderName then readJoinedNonEmptyHeaderValue entry.2 else none

def isSafeMethod (method : JsString) : Bool :=
  host.toUpperCase method = text "GET" || host.toUpperCase method = text "HEAD"

/-- Whether the preconditions of a request fail for a representation. -/
def preconditionFails (referenceYear : Int) (request : FrameworkRequest) (validators : Option ResponseValidators)
    (resourceExists : Bool) : Bool :=
  match parseEntityTagList ((readFirstNonEmptyRequestHeaderValue host request (text "if-match")).getD []) with
  | .invalid =>
    match parseHttpDate referenceYear (readFirstNonEmptyRequestHeaderValue host request (text "if-unmodified-since")),
        normalizeLastModified (validators.bind (·.lastModified)) with
    | some ifUnmodifiedSince, some lastModified => ifUnmodifiedSince < lastModified
    | _, _ => false
  | ifMatch => !matchesEntityTag ifMatch (validators.bind (·.etag)) .strong resourceExists

def resolveConditionalRequestRepresentation (referenceYear : Int) (request : FrameworkRequest)
    (resolution : ConditionalRequestResolution) : ConditionalRequestResult :=
  let (resourceExists, validators) := match resolution with
    | .missing => (false, none)
    | .exist validators => (true, validators)
  if preconditionFails host referenceYear request validators resourceExists then ⟨.preconditionFailed, validators⟩
  else
    match parseEntityTagList ((readFirstNonEmptyRequestHeaderValue host request (text "if-none-match")).getD []) with
    | .invalid =>
      match parseHttpDate referenceYear (readFirstNonEmptyRequestHeaderValue host request (text "if-modified-since")),
          normalizeLastModified (validators.bind (·.lastModified)) with
      | some ifModifiedSince, some lastModified =>
        if isSafeMethod host request.method ∧ lastModified ≤ ifModifiedSince then ⟨.notModified, validators⟩
        else ⟨.proceed, validators⟩
      | _, _ => ⟨.proceed, validators⟩
    | ifNoneMatch =>
      if matchesEntityTag ifNoneMatch (validators.bind (·.etag)) .weak resourceExists then
        ⟨if isSafeMethod host request.method then .notModified else .preconditionFailed, validators⟩
      else ⟨.proceed, validators⟩

end

/-- The headers that are set on the response. -/
def applyResponseValidators (validators : Option ResponseValidators) : List (JsString × JsString) :=
  (match validators.bind (·.etag) with
    | some etag => if isValidEntityTag etag then [(text "ETag", formatEntityTag etag)] else []
    | none => []) ++
  (match normalizeLastModified (validators.bind (·.lastModified)) with
    | some lastModified => [(text "Last-Modified", toUTCString lastModified)]
    | none => [])

end Fluo.Http
