import Fluo.Http.RequestVersion
import Fluo.Http.RoutePath

/-!
# The connection of a request

`resolveHttpConnection` derives the client of a request from the transport peer
and the forwarding headers that a policy trusts.
-/

namespace Fluo.Http

open Fluo.Js Fluo.Code

inductive ParsedAddress
  | ipv4 (value : Nat)
  | ipv6 (value : Nat)
  deriving DecidableEq, Repr

inductive Protocol
  | http
  | https
  deriving DecidableEq, Repr

structure ForwardedElement where
  address : JsString
  host : Option JsString
  protocol : Option JsString
  deriving DecidableEq, Repr

inductive ForwardingSource
  | forwarded (elements : List ForwardedElement)
  | xForwardedFor (addresses : List JsString)
  | xRealIp (address : JsString)
  deriving DecidableEq, Repr

def ForwardingSource.addresses : ForwardingSource → List JsString
  | .forwarded elements => elements.map (·.address)
  | .xForwardedFor addresses => addresses
  | .xRealIp address => [address]

/-- A number is `none` when it is not an integer. -/
inductive TrustProxyPolicy
  | off
  | hops (number : Option Int)
  | rules (rules : List JsString)
  | predicate (trusts : JsString → Nat → Bool)

/-- `trustProxy !== false` -/
def TrustProxyPolicy.isOn : TrustProxyPolicy → Bool
  | .off => false
  | _ => true

structure ResolveHttpConnectionOptions where
  trustProxy : TrustProxyPolicy
  allowForwardedWithoutPeer : Bool

structure RequestConnection where
  remoteAddress : Option JsString
  protocol : Option Protocol
  deriving DecidableEq, Repr

structure Socket where
  remoteAddress : Option JsString
  encrypted : Bool
  deriving DecidableEq, Repr

structure ConnectionRequest where
  headers : List (JsString × Option HeaderValue)
  connection : Option RequestConnection
  socket : Option Socket
  deriving DecidableEq, Repr

structure ParsedHost where
  host : Option JsString
  hostname : Option JsString
  port : Option Nat
  deriving DecidableEq, Repr

structure HttpConnection where
  clientAddress : Option JsString
  host : Option JsString
  hostname : Option JsString
  port : Option Nat
  protocol : Protocol
  proxyChain : List JsString
  remoteAddress : Option JsString
  secure : Bool
  deriving DecidableEq, Repr

def comma : UInt16 := unit ','

def dot : UInt16 := unit '.'

/-! ## Addresses -/

def isOctetText (part : JsString) : Bool := isDigits part && part.length ≤ 3

def parseIpv4 (value : JsString) : Option Nat :=
  let parts := value.splitOn dot
  if parts.length = 4 ∧ parts.all (fun part => isOctetText part && numberIn 10 part ≤ 255) then
    some (parts.foldl (fun n part => n * 256 + numberIn 10 part) 0)
  else none

def isHexText (part : JsString) : Bool :=
  part ≠ [] && part.length ≤ 4 && part.all fun u => isDigit u || (unit 'a' ≤ u && u ≤ unit 'f')

/-- The groups of one side of `::`. -/
def hexGroups (side : JsString) : List JsString := if side = [] then [] else side.splitOn colon

section

variable (host : CaseMapping)

def parseIpv6 (value : JsString) : Option Nat :=
  let normalized := host.toLowerCase value
  let ipv4 := (lastIndexOf [colon] normalized).bind fun separator =>
    let candidate := normalized.drop (separator + 1)
    if dot ∈ candidate then (parseIpv4 candidate).map (separator, ·) else none
  let ipv6Value := match ipv4 with
    | some (separator, ipv4) => normalized.take separator ++ colon :: digitsIn 16 (ipv4 / 65536) ++
        colon :: digitsIn 16 (ipv4 % 65536)
    | none => normalized
  let doubleColon := indexOf [colon, colon] ipv6Value
  if doubleColon ≠ lastIndexOf [colon, colon] ipv6Value then none
  else
    let headParts := hexGroups (match doubleColon with
      | none => ipv6Value
      | some i => ipv6Value.take i)
    let tailParts := hexGroups (match doubleColon with
      | none => []
      | some i => ipv6Value.drop (i + 2))
    let length := headParts.length + tailParts.length
    if !(headParts.all isHexText && tailParts.all isHexText) then none
    else if (doubleColon = none ∧ length ≠ 8) ∨ (doubleColon ≠ none ∧ 8 ≤ length) then none
    else
      let parts := headParts ++ List.replicate (8 - length) (text "0") ++ tailParts
      some (parts.foldl (fun n part => n * 65536 + numberIn 16 part) 0)

def parseAddress (value : JsString) : Option ParsedAddress :=
  match parseIpv4 value with
  | some ipv4 => some (.ipv4 ipv4)
  | none => (parseIpv6 host value).map .ipv6

def formatIpv4 (value : Nat) : JsString :=
  join dot [digitsIn 10 (value / 2 ^ 24 % 256), digitsIn 10 (value / 2 ^ 16 % 256), digitsIn 10 (value / 2 ^ 8 % 256),
    digitsIn 10 (value % 256)]

def ipv4FromMappedIpv6 (value : Nat) : Option Nat := if value / 2 ^ 32 = 0xffff then some (value % 2 ^ 32) else none

def isValidPort (value : JsString) : Bool := isDigits value && numberIn 10 value ≤ 65535

/-- A name in brackets and the digits of a port, if there is one. -/
def parseBracketed : JsString → Option (JsString × Option JsString)
  | [] => none
  | u :: rest =>
    let name := rest.takeWhile (· ≠ unit ']')
    if u = unit '[' ∧ name ≠ [] then
      match rest.dropWhile (· ≠ unit ']') with
      | [] => none
      | [_] => some (name, none)
      | _ :: v :: digits => if v = colon ∧ isDigits digits then some (name, some digits) else none
    else none

/-- A dotted quad and the digits of a port. -/
def parseIpv4WithPort (value : JsString) : Option (JsString × JsString) :=
  match value.splitOn colon with
  | [address, digits] =>
    let parts := address.splitOn dot
    if parts.length = 4 ∧ parts.all isOctetText ∧ isDigits digits then some (address, digits) else none
  | _ => none

/-- The address of a peer or a hop without its port. -/
def addressText (trimmed : JsString) : Option JsString :=
  if trimmed.head? = some (unit '[') then
    match parseBracketed trimmed with
    | none => none
    | some (name, port) => if port.all isValidPort then some name else none
  else
    match parseIpv4WithPort trimmed with
    | none => some trimmed
    | some (address, port) => if isValidPort port then some address else none

def normalizeAddress (value : JsString) : Option JsString :=
  let trimmed := trim value
  if trimmed = [] ∨ host.toLowerCase trimmed = text "unknown" ∨ trimmed.head? = some (unit '_') then none
  else
    (addressText trimmed).bind fun address =>
      match parseAddress host address with
      | none => none
      | some (.ipv4 value) => some (formatIpv4 value)
      | some (.ipv6 value) =>
        match ipv4FromMappedIpv6 value with
        | none => some (host.toLowerCase address)
        | some mapped => some (formatIpv4 mapped)

/-! ## Trust -/

/-- A rule for mapped IPv4 addresses is one for IPv4, when its prefix covers the mapping. -/
def ruleTarget (target : ParsedAddress) (networkPrefix : Option Nat) : Option (ParsedAddress × Option Nat) :=
  match target with
  | .ipv4 value => some (.ipv4 value, networkPrefix)
  | .ipv6 value =>
    match ipv4FromMappedIpv6 value with
    | none => some (.ipv6 value, networkPrefix)
    | some mapped => if networkPrefix.any (· < 96) then none else some (.ipv4 mapped, networkPrefix.map (· - 96))

def inNetwork (bits value target : Nat) : Option Nat → Bool
  | none => value = target
  | some networkPrefix => networkPrefix = 0 || value / 2 ^ (bits - networkPrefix) = target / 2 ^ (bits - networkPrefix)

def matchesAddressOrCidr (address rule : JsString) : Bool :=
  match (trim rule).splitOn slash with
  | [] | _ :: _ :: _ :: _ => false
  | network :: prefixText =>
    match network, parseAddress host address, parseAddress host network with
    | [], _, _ | _, none, _ | _, _, none => false
    | _, some candidate, some target =>
      let bits := match target with
        | .ipv4 _ => 32
        | .ipv6 _ => 128
      if !prefixText.all (fun digits => isDigits digits && numberIn 10 digits ≤ bits) then false
      else
        match candidate, ruleTarget target (prefixText.head?.map (numberIn 10)) with
        | .ipv4 value, some (.ipv4 target, networkPrefix) => inNetwork 32 value target networkPrefix
        | .ipv6 value, some (.ipv6 target, networkPrefix) => inNetwork 128 value target networkPrefix
        | _, _ => false

/-- `index` is the distance from the transport peer. -/
def isTrustedProxy (policy : TrustProxyPolicy) (address : JsString) (index : Nat) : Bool :=
  match policy with
  | .off => false
  | .hops number => number.any fun n => (index : Int) < n
  | .predicate trusts => trusts address index
  | .rules rules => rules.any fun rule => matchesAddressOrCidr host address rule

/-! ## Headers -/

/-- The values of a header joined by commas, nothing when it is not present. -/
def headerText (headers : List (JsString × Option HeaderValue)) (name : JsString) : Option JsString :=
  match headers.filter fun entry => host.toLowerCase entry.1 = name with
  | [] => none
  | entries => some (join comma (entries.flatMap fun entry =>
      match entry.2 with
      | none => []
      | some (.one value) => [value]
      | some (.many values) => values))

/-- A header is present, and has a value if it is not blank. -/
def readHeader (headers : List (JsString × Option HeaderValue)) (name : JsString) : Option (Option JsString) :=
  (headerText host headers name).map fun joined => nonEmpty (trim joined)

end

/-- Splits at separators outside quotes, nothing when a quote stays open. -/
def splitOutsideQuotes (separator : UInt16) (quoted escaped : Bool) (current : JsString) : JsString → Option (List JsString)
  | [] => if quoted || escaped then none else some [trim current]
  | u :: rest =>
    if escaped then splitOutsideQuotes separator quoted false (current ++ [u]) rest
    else if quoted && u = unit '\\' then splitOutsideQuotes separator quoted true (current ++ [u]) rest
    else if u = unit '"' then splitOutsideQuotes separator (!quoted) false (current ++ [u]) rest
    else if !quoted && u = separator then (splitOutsideQuotes separator false false [] rest).map (trim current :: ·)
    else splitOutsideQuotes separator quoted false (current ++ [u]) rest

def unescape (escaped : Bool) : JsString → Option JsString
  | [] => if escaped then none else some []
  | u :: rest =>
    if escaped then (unescape false rest).map (u :: ·)
    else if u = unit '\\' then unescape true rest
    else (unescape false rest).map (u :: ·)

def unquoteForwardedValue (value : JsString) : Option JsString :=
  let trimmed := trim value
  if trimmed = [] then none
  else if trimmed.head? ≠ some (unit '"') then if unit '"' ∈ trimmed then none else some trimmed
  else if trimmed.getLast? ≠ some (unit '"') ∨ trimmed.length < 2 then none
  else unescape false (trimmed.drop 1).dropLast

/-- What the parameters of an element have set so far. -/
structure ForwardedParameters where
  address : Option JsString
  host : Option JsString
  protocol : Option JsString
  keys : List JsString

section

variable (host : CaseMapping)

def parseForwardedParameter (seen : ForwardedParameters) (parameter : JsString) : Option ForwardedParameters :=
  match indexOf [unit '='] parameter with
  | none | some 0 => none
  | some separator =>
    let key := host.toLowerCase (trim (parameter.take separator))
    let rawParameterValue := parameter.drop (separator + 1)
    match unquoteForwardedValue rawParameterValue with
    | none | some [] => none
    | some parameterValue =>
      if key = [] ∨ key ∈ seen.keys then none
      else
        let keys := key :: seen.keys
        if key = text "for" then
          if (trim rawParameterValue).head? ≠ some (unit '"') ∧ colon ∈ parameterValue ∧
              (parseIpv4WithPort parameterValue).isNone then none
          else some { seen with keys, address := normalizeAddress host parameterValue }
        else if key = text "host" then some { seen with keys, host := nonEmpty (trim parameterValue) }
        else if key = text "proto" then
          some { seen with keys, protocol := some (host.toLowerCase (trim parameterValue)) }
        else some { seen with keys }

def parseForwardedElement (element : JsString) : Option ForwardedElement :=
  if element = [] then none
  else
    match splitOutsideQuotes (unit ';') false false [] element with
    | none => none
    | some parameters =>
      if [] ∈ parameters then none
      else
        match parameters.foldlM (parseForwardedParameter host) ⟨none, none, none, []⟩ with
        | none => none
        | some parsed => parsed.address.map fun address => ⟨address, parsed.host, parsed.protocol⟩

def parseForwarded (value : Option JsString) : Option (List ForwardedElement) :=
  match value with
  | none | some [] => none
  | some value => (splitOutsideQuotes comma false false [] value).bind fun elements =>
      elements.mapM (parseForwardedElement host)

def parseForwardedFor (value : Option JsString) : Option (List JsString) :=
  match value with
  | none | some [] => none
  | some value => (value.splitOn comma).mapM (normalizeAddress host)

def resolveForwardingSource (headers : List (JsString × Option HeaderValue)) : Option ForwardingSource :=
  match readHeader host headers (text "forwarded") with
  | some forwarded => (parseForwarded host forwarded).map .forwarded
  | none =>
    match readHeader host headers (text "x-forwarded-for") with
    | some xForwardedFor => (parseForwardedFor host xForwardedFor).map .xForwardedFor
    | none =>
      match readHeader host headers (text "x-real-ip") with
      | none | some none => none
      | some (some value) => (normalizeAddress host value).map .xRealIp

def readIndexedForwardingMetadata (headers : List (JsString × Option HeaderValue)) (name : JsString)
    (index expectedLength : Nat) : Option JsString :=
  match readHeader host headers name with
  | none | some none => none
  | some (some value) =>
    let values := (value.splitOn comma).map trim
    if values.length = expectedLength ∧ [] ∉ values then values[index]? else none

/-! ## The transport -/

def resolveRemoteAddress (request : ConnectionRequest) : Option JsString :=
  match (request.connection.bind (·.remoteAddress)).bind nonEmpty with
  | some remoteAddress => normalizeAddress host remoteAddress
  | none => (request.socket.bind (·.remoteAddress)).bind (normalizeAddress host)

def resolveTransportProtocol (request : ConnectionRequest) : Protocol :=
  match request.connection.bind (·.protocol) with
  | some protocol => protocol
  | none => if request.socket.any (·.encrypted) then .https else .http

/-- A name of letters, digits, dots and hyphens that starts and ends with a letter or a digit. -/
def isAuthorityName (name : JsString) : Bool :=
  name.all (fun u => isLetter u || isDigit u || u = dot || u = unit '-') &&
    name.head?.any (fun u => isLetter u || isDigit u) && name.getLast?.any fun u => isLetter u || isDigit u

def parseHost (value : Option JsString) : ParsedHost :=
  match value.bind fun value => nonEmpty (trim value) with
  | none => ⟨none, none, none⟩
  | some name =>
    if comma ∈ name then ⟨none, none, none⟩
    else if name.head? = some (unit '[') then
      match parseBracketed name with
      | none => ⟨none, none, none⟩
      | some (address, port) =>
        match parseAddress host address with
        | some (.ipv6 _) =>
          if port.all isValidPort then ⟨some name, some (host.toLowerCase address), port.map (numberIn 10)⟩
          else ⟨none, none, none⟩
        | _ => ⟨none, none, none⟩
    else
      match name.splitOn colon with
      | [authority] =>
        if isAuthorityName authority then ⟨some name, some (host.toLowerCase authority), none⟩ else ⟨none, none, none⟩
      | [authority, port] =>
        if isAuthorityName authority ∧ isValidPort port then
          ⟨some name, some (host.toLowerCase authority), some (numberIn 10 port)⟩
        else ⟨none, none, none⟩
      | _ => ⟨none, none, none⟩

/-! ## The connection -/

/-- Steps from the peer towards the client while the hop is trusted. -/
def walkTrusted (trusted : Nat → Bool) : Nat → Nat
  | 0 => 0
  | i + 1 => if trusted (i + 1) then walkTrusted trusted i else i + 1

/-- The addresses that are looked at, from the client to the peer. -/
def connectionChain (request : ConnectionRequest) (options : ResolveHttpConnectionOptions)
    (forwarding : Option ForwardingSource) : List JsString :=
  match resolveRemoteAddress host request, forwarding with
  | some remoteAddress, some forwarding =>
    if options.trustProxy.isOn then forwarding.addresses ++ [remoteAddress] else [remoteAddress]
  | some remoteAddress, none => [remoteAddress]
  | none, some forwarding => if options.allowForwardedWithoutPeer && options.trustProxy.isOn then forwarding.addresses else []
  | none, none => []

/-- The place of the client in the chain; an empty chain has none. -/
def clientIndexOf (options : ResolveHttpConnectionOptions) (chain : List JsString) : Option Nat :=
  match chain with
  | [] => none
  | chain => some (walkTrusted
      (fun i => (chain[i]?).any fun address => isTrustedProxy host options.trustProxy address (chain.length - 1 - i))
      (chain.length - 1))

/-- What forwarding metadata says of protocol and host at the place of the client. -/
def forwardedMetadata (request : ConnectionRequest) (forwarding : ForwardingSource) (clientIndex : Nat) :
    Option JsString × Option JsString :=
  match forwarding with
  | .forwarded elements =>
    (((elements[clientIndex]?).bind (·.protocol)), ((elements[clientIndex]?).bind (·.host)))
  | _ =>
    ((readIndexedForwardingMetadata host request.headers (text "x-forwarded-proto") clientIndex
        forwarding.addresses.length).map host.toLowerCase,
      readIndexedForwardingMetadata host request.headers (text "x-forwarded-host") clientIndex forwarding.addresses.length)

def resolveHttpConnection (request : ConnectionRequest) (options : ResolveHttpConnectionOptions) : HttpConnection :=
  let remoteAddress := resolveRemoteAddress host request
  let forwarding := resolveForwardingSource host request.headers
  let chain := connectionChain host request options forwarding
  let clientIndex := clientIndexOf host options chain
  let proxyChain := match clientIndex with
    | none => []
    | some i => chain.drop (i + 1)
  let metadata := match forwarding, clientIndex with
    | some forwarding, some i =>
      if i < forwarding.addresses.length ∧
          (proxyChain ≠ [] ∨ remoteAddress = none ∧ options.allowForwardedWithoutPeer = true) then
        forwardedMetadata host request forwarding i
      else (none, none)
    | _, _ => (none, none)
  let protocol :=
    if metadata.1 = some (text "https") then .https
    else if metadata.1 = some (text "http") then .http
    else resolveTransportProtocol request
  let forwardingHost := parseHost host metadata.2
  let selected :=
    if forwardingHost.host.isSome then forwardingHost
    else parseHost host ((readHeader host request.headers (text "host")).bind id)
  { clientAddress := clientIndex.bind (chain[·]?)
    host := selected.host
    hostname := selected.hostname
    port := selected.port
    protocol
    proxyChain
    remoteAddress
    secure := protocol = .https }

end

end Fluo.Http
