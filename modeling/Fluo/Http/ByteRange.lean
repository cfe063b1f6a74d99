import Fluo.Http.ConditionalPolicy
import Fluo.Lib.OrderedMap

/-!
# Byte ranges

A representation of known size is written whole or in the part that the `Range`
field of a request names, from memory or from a stream of chunks.
-/

namespace Fluo.Http

open Js Code

abbrev Bytes := List UInt8

/-- `Number.MAX_SAFE_INTEGER` -/
def maxSafeInteger : Nat := 2 ^ 53 - 1

/-- `Number.isSafeInteger(Number(digits))`: a number above the limit is rounded
to another one above it. -/
def isSafeNumber (digits : JsString) : Bool := numberIn 10 digits ≤ maxSafeInteger

/-- Bytes, a stream of chunks, or a value that is neither. -/
inductive ByteRangeSource
  | bytes (content : Bytes)
  | stream (chunks : List Bytes)
  | other
  deriving DecidableEq, Repr

inductive ResolvedByteRange
  | full
  | part (start finish : Nat)
  | unsatisfiable
  deriving DecidableEq, Repr

/-- What a source yields when it is read to its end. -/
def ByteRangeSource.content : ByteRangeSource → Bytes
  | .bytes content => content
  | .stream chunks => chunks.flatten
  | .other => []

structure ByteRangeResponseEntry where
  contentType : JsString
  size : Nat
  source : ByteRangeSource
  safe : size ≤ maxSafeInteger
  sized : source ≠ .other → source.content.length = size

/-- The response facade; `sent` is the body and whether compression is off,
`written` what went to `response.stream`, if the adapter has one. -/
structure ByteResponse where
  committed : Bool
  statusCode : Option Nat
  headers : OrderedMap JsString JsString
  hasStream : Bool
  sent : Option (Option Bytes × Bool)
  written : List Bytes

/-- What `applySuccessResponseMetadata` sets: the headers of the route and the
status, unless there is one. -/
structure SuccessMetadata where
  headers : List (JsString × JsString)
  status : Option Nat

/-- `uncompressed` is `compression === false`. -/
structure ByteRangeWriteOptions where
  metadata : SuccessMetadata
  uncompressed : Bool
  validators : Option ResponseValidators

/-- What the loop over a stream sees: a closed or stopped response or an aborted
request before a read, and the same while it waits for one. -/
structure Interruptions where
  before : Nat → Bool
  during : Nat → Bool

def Interruptions.none : Interruptions := ⟨fun _ => false, fun _ => false⟩

/-- A `TypeError` with its message. -/
structure TypeError where
  message : JsString
  deriving DecidableEq, Repr

def ByteResponse.setHeader (response : ByteResponse) (name value : JsString) : ByteResponse :=
  { response with headers := response.headers.set name value }

def SuccessMetadata.apply (metadata : SuccessMetadata) (response : ByteResponse) : ByteResponse :=
  let response := metadata.headers.foldl (fun response header => response.setHeader header.1 header.2) response
  { response with statusCode := metadata.status.or response.statusCode }

/-! ## The requested range -/

def parseByteRangeHeader (rangeHeader : Option JsString) : Option (JsString × JsString) :=
  let header := trim (rangeHeader.getD [])
  if (text "bytes=").isPrefixOf header then
    let startText := (header.drop 6).takeWhile isDigit
    match (header.drop 6).dropWhile isDigit with
    | [] => none
    | u :: endText =>
      if u = unit '-' ∧ endText.all isDigit ∧ 0 < startText.length + endText.length then some (startText, endText)
      else none
  else none

def resolveByteRange (rangeHeader : Option JsString) (size : Nat) (ifRangeMatches : Bool) : ResolvedByteRange :=
  match parseByteRangeHeader rangeHeader, ifRangeMatches with
  | none, _ | _, false => .full
  | some (startText, endText), true =>
    if startText = [] then
      if isSafeNumber endText = false ∨ numberIn 10 endText = 0 ∨ size = 0 then .unsatisfiable
      else .part (size - numberIn 10 endText) (size - 1)
    else if isSafeNumber startText = false ∨ size ≤ numberIn 10 startText then .unsatisfiable
    else if endText = [] then .part (numberIn 10 startText) (size - 1)
    else if isSafeNumber endText = false ∨ numberIn 10 endText < numberIn 10 startText then .unsatisfiable
    else .part (numberIn 10 startText) (min (numberIn 10 endText) (size - 1))

/-! ## Writing -/

/-- The loop of `writeReadableStream`: the chunks that are written. -/
def writeReadableStream (interruptions : Interruptions) (turn skip remaining : Nat) : List Bytes → List Bytes
  | [] => []
  | value :: rest =>
    if remaining = 0 ∨ interruptions.before turn ∨ interruptions.during turn then []
    else if value.length ≤ skip then writeReadableStream interruptions (turn + 1) (skip - value.length) remaining rest
    else
      let chunk := (value.take (min value.length (skip + remaining))).drop skip
      (if chunk = [] then [] else [chunk]) ++
        writeReadableStream interruptions (turn + 1) 0 (remaining - chunk.length) rest

section

variable (host : CaseMapping)

def isByteRangeRequestMethod (method : JsString) : Bool :=
  host.toUpperCase method = text "GET" || host.toUpperCase method = text "HEAD"

def matchesIfRange (referenceYear : Int) (request : FrameworkRequest) (validators : Option ResponseValidators) : Bool :=
  match readFirstNonEmptyRequestHeaderValue host request (text "if-range") with
  | none => true
  | some ifRange =>
    match parseEntityTagList ifRange with
    | .tags [tag] =>
      match validators.bind (·.etag) with
      | some etag => tag.strength = .strong && etag.strength = .strong && tag.opaqueValue = etag.opaqueValue
      | none => false
    | _ =>
      match parseHttpDate referenceYear (some ifRange), normalizeLastModified (validators.bind (·.lastModified)) with
      | some ifRangeDate, some lastModified => lastModified ≤ ifRangeDate
      | _, _ => false

def hasHeader (response : ByteResponse) (name : JsString) : Bool :=
  response.headers.keys.any fun header => host.toLowerCase header = host.toLowerCase name

def openAnswer (entry : ByteRangeResponseEntry) (options : ByteRangeWriteOptions) (acceptsByteRange : Bool)
    (response : ByteResponse) : ByteResponse :=
  let response := options.metadata.apply response
  let response := if acceptsByteRange then response.setHeader (text "Accept-Ranges") (text "bytes") else response
  if hasHeader host response (text "content-type") then response
  else response.setHeader (text "Content-Type") entry.contentType

def contentRange (start finish size : Nat) : JsString :=
  text "bytes " ++ digitsIn 10 start ++ text "-" ++ digitsIn 10 finish ++ text "/" ++ digitsIn 10 size

def unsatisfiedRange (size : Nat) : JsString := text "bytes */" ++ digitsIn 10 size

def ByteResponse.send (response : ByteResponse) (body : Option Bytes) (options : ByteRangeWriteOptions) : ByteResponse :=
  { response with sent := some (body, options.uncompressed) }

def frameRange (entry : ByteRangeResponseEntry) (response : ByteResponse) : ResolvedByteRange → ByteResponse
  | .full => response.setHeader (text "Content-Length") (digitsIn 10 entry.size)
  | .part start finish =>
    ({ response with statusCode := some 206 }.setHeader (text "Content-Length") (digitsIn 10 (finish - start + 1))).setHeader
      (text "Content-Range") (contentRange start finish entry.size)
  | .unsatisfiable =>
    ({ response with statusCode := some 416 }.setHeader (text "Content-Length") (text "0")).setHeader
      (text "Content-Range") (unsatisfiedRange entry.size)

/-- `bytes.slice(start, end + 1)` -/
def ResolvedByteRange.slice (bytes : Bytes) : ResolvedByteRange → Bytes
  | .part start finish => (bytes.take (finish + 1)).drop start
  | _ => bytes

def ResolvedByteRange.skip : ResolvedByteRange → Nat
  | .part start _ => start
  | _ => 0

def ResolvedByteRange.remaining (size : Nat) : ResolvedByteRange → Nat
  | .part start finish => finish - start + 1
  | _ => size

def writeByteRangeResponse (referenceYear : Int) (request : FrameworkRequest) (entry : ByteRangeResponseEntry)
    (options : ByteRangeWriteOptions) (interruptions : Interruptions) (response : ByteResponse) :
    Except TypeError ByteResponse :=
  if response.committed then .ok response
  else
    let acceptsByteRange := isByteRangeRequestMethod host request.method
    let range := resolveByteRange
      (if acceptsByteRange then readFirstNonEmptyRequestHeaderValue host request (text "range") else none)
      entry.size (acceptsByteRange && matchesIfRange host referenceYear request options.validators)
    let isHead : Bool := host.toUpperCase request.method = text "HEAD"
    let framed := frameRange entry (openAnswer host entry options acceptsByteRange response) range
    if range = .unsatisfiable then .ok (framed.send none options)
    else
      match entry.source with
      | .bytes content => .ok (framed.send (if isHead then none else some (range.slice content)) options)
      | .stream chunks =>
        if isHead then .ok (framed.send none options)
        else if !response.hasStream then
          .error ⟨text "The active HTTP adapter cannot write a portable byte stream."⟩
        else
          .ok { framed with
            committed := true
            written := writeReadableStream interruptions 0 range.skip (range.remaining entry.size) chunks }
      | .other =>
        if isHead then .ok (framed.send none options)
        else .error ⟨text "A byte-range response must contain bytes or a portable readable stream."⟩

end

end Fluo.Http
