import Fluo.Http.Connection

/-!
# Proxy trust

The client of a request is found from the peer's side, so what stands further
left in the forwarding lists cannot change it.
-/

namespace Fluo.Http

open Fluo.Js Fluo.Code

/-! ## Lists in headers -/

def listEntries (s : JsString) : List JsString := (s.splitOn comma).map trim

theorem listEntries_append (s s' : JsString) : listEntries (s ++ comma :: s') = listEntries s ++ listEntries s' := by
  rw [listEntries, List.splitOn_append_cons_self, List.map_append, listEntries, listEntries]

theorem splitOn_blank {b : JsString} (blank : Blank b) (s : JsString) :
    ∃ pieces last, s.splitOn comma = pieces ++ [last] ∧ (s ++ b).splitOn comma = pieces ++ [last ++ b] := by
  have clear : comma ∉ b := fun mem => absurd (blank comma mem) (by decide)
  induction s with
  | nil => exact ⟨[], [], rfl, List.splitOn_eq_singleton clear⟩
  | cons u rest ih =>
    obtain ⟨pieces, last, split, split'⟩ := ih
    by_cases same : u = comma
    · refine ⟨[] :: pieces, last, ?_, ?_⟩
      · rw [List.splitOn_cons_eq_if_modifyHead, if_pos (beq_iff_eq.mpr same), split]
        rfl
      · rw [List.cons_append, List.splitOn_cons_eq_if_modifyHead, if_pos (beq_iff_eq.mpr same), split']
        rfl
    · have other : ¬ (u == comma) = true := fun eq => same (beq_iff_eq.mp eq)
      cases pieces with
      | nil =>
        refine ⟨[], u :: last, ?_, ?_⟩
        · rw [List.splitOn_cons_eq_if_modifyHead, if_neg other, split]
          rfl
        · rw [List.cons_append, List.splitOn_cons_eq_if_modifyHead, if_neg other, split']
          rfl
      | cons piece pieces =>
        refine ⟨(u :: piece) :: pieces, last, ?_, ?_⟩
        · rw [List.splitOn_cons_eq_if_modifyHead, if_neg other, split]
          rfl
        · rw [List.cons_append, List.splitOn_cons_eq_if_modifyHead, if_neg other, split']
          rfl

theorem listEntries_blank_right {b : JsString} (blank : Blank b) (s : JsString) :
    listEntries (s ++ b) = listEntries s := by
  obtain ⟨pieces, last, split, split'⟩ := splitOn_blank blank s
  rw [listEntries, listEntries, split, split', List.map_append, List.map_append, List.map_singleton, List.map_singleton,
    trim_append_right blank]

theorem listEntries_blank_left {a : JsString} (blank : Blank a) (s : JsString) : listEntries (a ++ s) = listEntries s := by
  have clear : comma ∉ a := fun mem => absurd (blank comma mem) (by decide)
  cases pieces : s.splitOn comma with
  | nil => exact absurd pieces (List.splitOn_ne_nil _ _)
  | cons piece rest =>
    have split : (a ++ s).splitOn comma = (a ++ piece) :: rest := by
      clear blank
      induction a with
      | nil => exact pieces
      | cons u a ih =>
        rw [List.mem_cons, not_or] at clear
        rw [List.cons_append, List.splitOn_cons_eq_if_modifyHead,
          if_neg fun eq => clear.1 (beq_iff_eq.mp eq).symm, ih clear.2]
        rfl
    rw [listEntries, listEntries, split, pieces, List.map_cons, List.map_cons, trim_append_left blank]

theorem listEntries_trim (s : JsString) : listEntries (trim s) = listEntries s := by
  obtain ⟨a, b, blankA, blankB, parts⟩ := exists_trim s
  rw [show listEntries s = listEntries (a ++ trim s ++ b) from congrArg _ parts, listEntries_blank_right blankB,
    listEntries_blank_left blankA]

/-! ## Elements in quotes -/

/-- White space at the end only goes to the last part. -/
theorem splitOutsideQuotes_blank_right {b : JsString} (blank : Blank b) (s : JsString) (quoted escaped : Bool)
    (current : JsString) (inQuotes : escaped = true → quoted = true) :
    splitOutsideQuotes comma quoted escaped current (s ++ b) = splitOutsideQuotes comma quoted escaped current s := by
  induction s generalizing quoted escaped current with
  | nil =>
    rw [List.nil_append]
    induction b generalizing escaped current with
    | nil => rfl
    | cons u b ih =>
      have white : isWhiteSpace u = true := blank u List.mem_cons_self
      have blankB : Blank b := fun v mem => blank v (List.mem_cons_of_mem u mem)
      have plain : u ≠ unit '\\' ∧ u ≠ unit '"' ∧ u ≠ comma := by
        refine ⟨?_, ?_, ?_⟩ <;> rintro rfl <;> exact absurd white (by decide)
      have same : trim (current ++ [u]) = trim current :=
        trim_append_right (fun v mem => List.mem_singleton.mp mem ▸ white) current
      cases escaped with
      | true =>
        rw [show splitOutsideQuotes comma quoted true current (u :: b) =
          splitOutsideQuotes comma quoted false (current ++ [u]) b from rfl, ih blankB false (current ++ [u]) nofun,
          inQuotes rfl]
        rfl
      | false =>
        have step : splitOutsideQuotes comma quoted false current (u :: b) =
            splitOutsideQuotes comma quoted false (current ++ [u]) b := by
          simp only [splitOutsideQuotes, Bool.false_eq_true, if_false, plain.1, plain.2.1, plain.2.2, decide_false,
            Bool.and_false]
        rw [step, ih blankB false (current ++ [u]) nofun]
        simp only [splitOutsideQuotes, same]
  | cons u rest ih =>
    rw [List.cons_append, splitOutsideQuotes, splitOutsideQuotes]
    by_cases skip : escaped = true
    · rw [if_pos skip, if_pos skip]
      exact ih quoted false _ nofun
    · rw [if_neg skip, if_neg skip]
      by_cases escape : (quoted && u = unit '\\') = true
      · rw [if_pos escape, if_pos escape]
        exact ih quoted true _ fun _ => (Bool.and_eq_true_iff.mp escape).1
      · rw [if_neg escape, if_neg escape, ih (!quoted) false _ nofun, ih false false [] nofun, ih quoted false _ nofun]

/-- White space at the start only goes to the first part. -/
theorem splitOutsideQuotes_blank_left {a : JsString} (blank : Blank a) (s : JsString) (quoted escaped : Bool)
    (current : JsString) :
    splitOutsideQuotes comma quoted escaped (a ++ current) s = splitOutsideQuotes comma quoted escaped current s := by
  induction s generalizing quoted escaped current with
  | nil => rw [splitOutsideQuotes, splitOutsideQuotes, trim_append_left blank]
  | cons u rest ih =>
    rw [splitOutsideQuotes, splitOutsideQuotes, List.append_assoc, ih quoted false (current ++ [u]),
      ih quoted true (current ++ [u]), ih (!quoted) false (current ++ [u]), trim_append_left blank]

theorem splitOutsideQuotes_read {a : JsString} (blank : Blank a) (s current : JsString) :
    splitOutsideQuotes comma false false current (a ++ s) = splitOutsideQuotes comma false false (current ++ a) s := by
  induction a generalizing current with
  | nil => rw [List.nil_append, List.append_nil]
  | cons u a ih =>
    have white : isWhiteSpace u = true := blank u List.mem_cons_self
    have plain : u ≠ unit '"' ∧ u ≠ comma := by
      refine ⟨?_, ?_⟩ <;> rintro rfl <;> exact absurd white (by decide)
    have step : splitOutsideQuotes comma false false current (u :: (a ++ s)) =
        splitOutsideQuotes comma false false (current ++ [u]) (a ++ s) := by
      simp only [splitOutsideQuotes, Bool.false_eq_true, if_false, plain.1, plain.2, decide_false, Bool.and_false,
        Bool.false_and]
    rw [List.cons_append, step, ih (fun v mem => blank v (List.mem_cons_of_mem u mem)), List.append_assoc]
    rfl

def elementsOf (s : JsString) : Option (List JsString) := splitOutsideQuotes comma false false [] s

theorem elementsOf_trim (s : JsString) : elementsOf (trim s) = elementsOf s := by
  obtain ⟨a, b, blankA, blankB, parts⟩ := exists_trim s
  have read := splitOutsideQuotes_read blankA (trim s) []
  rw [List.nil_append, ← List.append_nil a, splitOutsideQuotes_blank_left blankA, List.append_nil] at read
  rw [show elementsOf s = elementsOf (a ++ trim s ++ b) from congrArg _ parts, elementsOf, elementsOf,
    splitOutsideQuotes_blank_right blankB (a ++ trim s) false false [] nofun, read]

/-- A separator after a text whose quotes are closed ends its last part. -/
theorem splitOutsideQuotes_append {s : JsString} {quoted escaped : Bool} {current : JsString} {parts : List JsString}
    (h : splitOutsideQuotes comma quoted escaped current s = some parts) (s' : JsString) :
    splitOutsideQuotes comma quoted escaped current (s ++ comma :: s') = (elementsOf s').map (parts ++ ·) := by
  induction s generalizing quoted escaped current parts with
  | nil =>
    rw [splitOutsideQuotes] at h
    split at h
    · cases h
    · next closed =>
      cases h
      simp only [Bool.or_eq_true, not_or, Bool.not_eq_true] at closed
      rw [List.nil_append, splitOutsideQuotes, closed.1, closed.2]
      rfl
  | cons u rest ih =>
    rw [List.cons_append, splitOutsideQuotes]
    rw [splitOutsideQuotes] at h
    split
    · next skip =>
      rw [if_pos skip] at h
      exact ih h
    · next skip =>
      rw [if_neg skip] at h
      split
      · next escape =>
        rw [if_pos escape] at h
        exact ih h
      · next escape =>
        rw [if_neg escape] at h
        split
        · next quote =>
          rw [if_pos quote] at h
          exact ih h
        · next quote =>
          rw [if_neg quote] at h
          split
          · next ends =>
            rw [if_pos ends] at h
            obtain ⟨tail, found, rfl⟩ := Option.map_eq_some_iff.mp h
            rw [ih found, Option.map_map]
            rfl
          · next ends =>
            rw [if_neg ends] at h
            exact ih h

/-! ## What the headers list -/

theorem trim_trim (s : JsString) : trim (trim s) = trim s := by
  obtain ⟨a, b, blankA, blankB, parts⟩ := exists_trim s
  have same : trim s = trim (a ++ trim s ++ b) := congrArg trim parts
  rw [trim_append_right blankB, trim_append_left blankA] at same
  exact same.symm

section

variable (host : CaseMapping)

theorem normalizeAddress_trim (value : JsString) : normalizeAddress host (trim value) = normalizeAddress host value := by
  simp only [normalizeAddress, trim_trim]

theorem parseForwardedFor_entries (s : JsString) :
    parseForwardedFor host (nonEmpty (trim s)) = (listEntries s).mapM (normalizeAddress host) := by
  have entries (value : JsString) :
      (value.splitOn comma).mapM (normalizeAddress host) = (listEntries value).mapM (normalizeAddress host) := by
    rw [listEntries, List.mapM_map]
    congr 1
    exact funext fun entry => (normalizeAddress_trim host entry).symm
  rw [← listEntries_trim s, ← entries]
  cases trim s with
  | nil => rfl
  | cons u rest => rfl

theorem parseForwarded_elements (s : JsString) :
    parseForwarded host (nonEmpty (trim s)) = (elementsOf s).bind fun elements =>
      elements.mapM (parseForwardedElement host) := by
  rw [← elementsOf_trim s]
  cases trim s with
  | nil => rfl
  | cons u rest => rfl

theorem parseForwardedFor_append {p s : JsString} {addresses addresses' : List JsString}
    (front : parseForwardedFor host (nonEmpty (trim p)) = some addresses)
    (behind : parseForwardedFor host (nonEmpty (trim s)) = some addresses') :
    parseForwardedFor host (nonEmpty (trim (p ++ comma :: s))) = some (addresses ++ addresses') := by
  rw [parseForwardedFor_entries] at front behind ⊢
  rw [listEntries_append, List.mapM_append, front, behind]
  rfl

theorem parseForwarded_append {p s : JsString} {elements elements' : List ForwardedElement}
    (front : parseForwarded host (nonEmpty (trim p)) = some elements)
    (behind : parseForwarded host (nonEmpty (trim s)) = some elements') :
    parseForwarded host (nonEmpty (trim (p ++ comma :: s))) = some (elements ++ elements') := by
  rw [parseForwarded_elements] at front behind ⊢
  obtain ⟨parts, split, parsed⟩ := Option.bind_eq_some_iff.mp front
  obtain ⟨parts', split', parsed'⟩ := Option.bind_eq_some_iff.mp behind
  rw [elementsOf, splitOutsideQuotes_append split, split']
  show (parts ++ parts').mapM (parseForwardedElement host) = _
  rw [List.mapM_append, parsed, parsed']
  rfl

/-- A list that is aligned with the forwarding list is read at the client's place. -/
theorem readIndexed_entries (headers : List (JsString × Option HeaderValue)) (name : JsString) (index length : Nat) :
    readIndexedForwardingMetadata host headers name index length = (headerText host headers name).bind fun s =>
      if (listEntries s).length = length ∧ [] ∉ listEntries s then (listEntries s)[index]? else none := by
  rw [readIndexedForwardingMetadata, readHeader]
  cases headerText host headers name with
  | none => rfl
  | some s =>
    rw [Option.map_some, Option.bind_some, ← listEntries_trim s]
    cases trim s with
    | nil => exact (if_neg fun aligned => aligned.2 List.mem_cons_self).symm
    | cons u rest => rfl

end

/-! ## The walk to the client -/

theorem walkTrusted_le (trusted : Nat → Bool) (k : Nat) : walkTrusted trusted k ≤ k := by
  induction k with
  | zero => exact Nat.le_refl 0
  | succ k ih =>
    rw [walkTrusted]
    split
    · exact Nat.le_succ_of_le ih
    · exact Nat.le_refl _

theorem walkTrusted_above {trusted : Nat → Bool} {k j : Nat} (above : walkTrusted trusted k < j) (h : j ≤ k) :
    trusted j = true := by
  induction k with
  | zero => exact absurd above (by omega)
  | succ k ih =>
    rw [walkTrusted] at above
    split at above
    · next here =>
      rcases Nat.lt_or_eq_of_le h with below | rfl
      · exact ih above (by omega)
      · exact here
    · exact absurd above (by omega)

theorem walkTrusted_stop (trusted : Nat → Bool) (k : Nat) :
    walkTrusted trusted k = 0 ∨ trusted (walkTrusted trusted k) = false := by
  induction k with
  | zero => exact .inl rfl
  | succ k ih =>
    rw [walkTrusted]
    split
    · exact ih
    · next here => exact .inr (Bool.eq_false_iff.mpr here)

/-- Hops in front are not reached when one behind them is not trusted. -/
theorem walkTrusted_add {trusted trusted' : Nat → Bool} {n k : Nat} (same : ∀ j, j ≤ k → trusted' (j + n) = trusted j)
    (untrusted : ∃ j, j ≤ k ∧ trusted j = false) : walkTrusted trusted' (k + n) = walkTrusted trusted k + n := by
  induction k with
  | zero =>
    obtain ⟨j, le, no⟩ := untrusted
    obtain rfl : j = 0 := by omega
    rw [Nat.zero_add, walkTrusted, Nat.zero_add]
    cases n with
    | zero => rfl
    | succ n => rw [walkTrusted, if_neg (by rw [← Nat.zero_add (n + 1), same 0 le, no]; exact Bool.false_ne_true)]
  | succ k ih =>
    rw [Nat.add_right_comm, walkTrusted, walkTrusted, Nat.add_right_comm, same (k + 1) (Nat.le_refl _)]
    split
    · next here =>
      refine ih (fun j le => same j (by omega)) ?_
      obtain ⟨j, le, no⟩ := untrusted
      rcases Nat.lt_or_eq_of_le le with below | rfl
      · exact ⟨j, by omega, no⟩
      · exact absurd here (by rw [no]; exact Bool.false_ne_true)
    · rfl

/-! ## The client of a request -/

section

variable (host : CaseMapping)

/-- The forwarded addresses, followed by the peer. Without a peer they count only
where that is allowed. -/
def trustChain (request : ConnectionRequest) (options : ResolveHttpConnectionOptions) (forwarding : ForwardingSource) :
    List JsString :=
  match resolveRemoteAddress host request with
  | some remoteAddress => forwarding.addresses ++ [remoteAddress]
  | none => if options.allowForwardedWithoutPeer && options.trustProxy.isOn then forwarding.addresses else []

/-- The hop at a place of the chain is trusted at its distance from the peer. -/
def trustedAt (policy : TrustProxyPolicy) (chain : List JsString) (i : Nat) : Bool :=
  (chain[i]?).any fun address => isTrustedProxy host policy address (chain.length - 1 - i)

/-- The client is the right-most address that is not trusted, else the left-most,
and the proxies are the addresses behind it. -/
structure ClientOf (policy : TrustProxyPolicy) (chain : List JsString) (connection : HttpConnection) : Prop where
  nobody : chain = [] → connection.clientAddress = none ∧ connection.proxyChain = []
  client : chain ≠ [] → ∃ i < chain.length, connection.clientAddress = chain[i]? ∧
    connection.proxyChain = chain.drop (i + 1) ∧ (i = 0 ∨ trustedAt host policy chain i = false) ∧
    ∀ j < chain.length, i < j → trustedAt host policy chain j = true

/-- A list that is aligned with the forwarding list has as many entries more in
front, or is not there. -/
def AlignedExtension (name : JsString) (n : Nat) (headers headers' : List (JsString × Option HeaderValue)) : Prop :=
  (headerText host headers name = none ∧ headerText host headers' name = none) ∨
    ∃ entries s, headerText host headers name = some s ∧ headerText host headers' name = some (entries ++ comma :: s) ∧
      (listEntries entries).length = n ∧ [] ∉ listEntries entries

/-- The forwarding list has further well-formed elements in front, and lists that
are aligned with it are extended alike. -/
inductive ForwardingExtension (headers headers' : List (JsString × Option HeaderValue)) : Prop
  | forwarded (front behind : JsString) (elements : List ForwardedElement)
      (before : headerText host headers (text "forwarded") = some behind)
      (after : headerText host headers' (text "forwarded") = some (front ++ comma :: behind))
      (wellFormed : parseForwarded host (nonEmpty (trim front)) = some elements)
  | xForwardedFor (front behind : JsString) (addresses : List JsString)
      (absent : headerText host headers (text "forwarded") = none)
      (absent' : headerText host headers' (text "forwarded") = none)
      (before : headerText host headers (text "x-forwarded-for") = some behind)
      (after : headerText host headers' (text "x-forwarded-for") = some (front ++ comma :: behind))
      (wellFormed : parseForwardedFor host (nonEmpty (trim front)) = some addresses)
      (hosts : AlignedExtension host (text "x-forwarded-host") addresses.length headers headers')
      (protocols : AlignedExtension host (text "x-forwarded-proto") addresses.length headers headers')

/-- Two requests that differ in no more than their forwarding headers. -/
structure SameTransport (request request' : ConnectionRequest) : Prop where
  connection : request'.connection = request.connection
  socket : request'.socket = request.socket
  hostHeader : readHeader host request'.headers (text "host") = readHeader host request.headers (text "host")

/-! ## What the connection depends on -/

/-- A connection whose client, proxies and forwarding metadata are known. -/
def connectionOf (request : ConnectionRequest) (clientAddress : Option JsString) (proxyChain : List JsString)
    (metadata : Option JsString × Option JsString) : HttpConnection :=
  let protocol :=
    if metadata.1 = some (text "https") then .https
    else if metadata.1 = some (text "http") then .http
    else resolveTransportProtocol request
  let forwardingHost := parseHost host metadata.2
  let selected :=
    if forwardingHost.host.isSome then forwardingHost
    else parseHost host ((readHeader host request.headers (text "host")).bind id)
  { clientAddress
    host := selected.host
    hostname := selected.hostname
    port := selected.port
    protocol
    proxyChain
    remoteAddress := resolveRemoteAddress host request
    secure := protocol = .https }

variable {host}

theorem SameTransport.remoteAddress {request request' : ConnectionRequest} (same : SameTransport host request request') :
    resolveRemoteAddress host request' = resolveRemoteAddress host request := by
  rw [resolveRemoteAddress, resolveRemoteAddress, same.connection, same.socket]

theorem SameTransport.connectionOf {request request' : ConnectionRequest} (same : SameTransport host request request')
    (clientAddress : Option JsString) (proxyChain : List JsString) (metadata : Option JsString × Option JsString) :
    connectionOf host request' clientAddress proxyChain metadata =
      connectionOf host request clientAddress proxyChain metadata := by
  have protocol : resolveTransportProtocol request' = resolveTransportProtocol request := by
    rw [resolveTransportProtocol, resolveTransportProtocol, same.connection, same.socket]
  simp only [Http.connectionOf, protocol, same.hostHeader, same.remoteAddress]

theorem clientIndexOf_eq {options : ResolveHttpConnectionOptions} {chain : List JsString} (nonempty : chain ≠ []) :
    clientIndexOf host options chain =
      some (walkTrusted (trustedAt host options.trustProxy chain) (chain.length - 1)) := by
  cases chain with
  | nil => exact absurd rfl nonempty
  | cons address rest => rfl

theorem trustedAt_append (policy : TrustProxyPolicy) (front : List JsString) {chain : List JsString} {i : Nat}
    (h : i < chain.length) : trustedAt host policy (front ++ chain) (i + front.length) = trustedAt host policy chain i := by
  rw [trustedAt, trustedAt, List.getElem?_append_right (Nat.le_add_left _ _), Nat.add_sub_cancel, List.length_append,
    show front.length + chain.length - 1 - (i + front.length) = chain.length - 1 - i by omega]

theorem trustedAt_peer (policy : TrustProxyPolicy) (front : List JsString) (peer : JsString) :
    trustedAt host policy (front ++ [peer]) front.length = isTrustedProxy host policy peer 0 := by
  have last : trustedAt host policy (front ++ [peer]) (0 + front.length) = trustedAt host policy [peer] 0 :=
    trustedAt_append policy front Nat.one_pos
  rw [Nat.zero_add] at last
  rw [last]
  rfl

theorem connectionChain_peer {request : ConnectionRequest} {peer : JsString}
    (known : resolveRemoteAddress host request = some peer) (options : ResolveHttpConnectionOptions)
    (forwarding : Option ForwardingSource) : ∃ front, connectionChain host request options forwarding = front ++ [peer] := by
  unfold connectionChain
  rw [known]
  cases forwarding with
  | none => exact ⟨[], rfl⟩
  | some forwarding =>
    cases on : options.trustProxy.isOn with
    | false => exact ⟨[], rfl⟩
    | true => exact ⟨forwarding.addresses, rfl⟩

theorem resolve_direct {request : ConnectionRequest} {options : ResolveHttpConnectionOptions} {peer : JsString}
    (known : resolveRemoteAddress host request = some peer)
    (untrusted : isTrustedProxy host options.trustProxy peer 0 = false) :
    resolveHttpConnection host request options = connectionOf host request (some peer) [] (none, none) := by
  obtain ⟨front, chain⟩ := connectionChain_peer known options (resolveForwardingSource host request.headers)
  have place : clientIndexOf host options (front ++ [peer]) = some front.length := by
    have length : (front ++ [peer]).length - 1 = front.length := by rw [List.length_append]; rfl
    rw [clientIndexOf_eq (by simp), length]
    rcases walkTrusted_le (trustedAt host options.trustProxy (front ++ [peer])) front.length |>.lt_or_eq with below | here
    · have trusted := walkTrusted_above below (Nat.le_refl _)
      rw [trustedAt_peer, untrusted] at trusted
      exact absurd trusted Bool.false_ne_true
    · rw [here]
  have proxies : (front ++ [peer]).drop (front.length + 1) = [] := List.drop_eq_nil_of_le (by simp)
  have client : (front ++ [peer])[front.length]? = some peer := by simp
  simp only [resolveHttpConnection, chain, place, proxies, Option.bind_some, client, known, ne_eq, not_true_eq_false,
    false_or, reduceCtorEq, false_and, and_false, if_false]
  cases resolveForwardingSource host request.headers <;> simp only [connectionOf, known]

/-- The place of the address that the walk over a chain selects. -/
def clientPlace (host : CaseMapping) (policy : TrustProxyPolicy) (chain : List JsString) : Nat :=
  walkTrusted (trustedAt host policy chain) (chain.length - 1)

theorem resolve_forwarded {request : ConnectionRequest} {options : ResolveHttpConnectionOptions}
    {forwarding : ForwardingSource} (source : resolveForwardingSource host request.headers = some forwarding)
    {tail : List JsString} (peer : tail = (resolveRemoteAddress host request).toList)
    (chain : connectionChain host request options (some forwarding) = forwarding.addresses ++ tail)
    (nonempty : forwarding.addresses ++ tail ≠ [])
    (allowed : resolveRemoteAddress host request = none → options.allowForwardedWithoutPeer = true) :
    resolveHttpConnection host request options =
      let i := clientPlace host options.trustProxy (forwarding.addresses ++ tail)
      connectionOf host request (forwarding.addresses ++ tail)[i]? ((forwarding.addresses ++ tail).drop (i + 1))
        (if i < forwarding.addresses.length then forwardedMetadata host request forwarding i else (none, none)) := by
  have counts (i : Nat) : (i < forwarding.addresses.length ∧ ((forwarding.addresses ++ tail).drop (i + 1) ≠ [] ∨
      resolveRemoteAddress host request = none ∧ options.allowForwardedWithoutPeer = true)) ↔
      i < forwarding.addresses.length := by
    refine ⟨And.left, fun inside => ⟨inside, ?_⟩⟩
    cases known : resolveRemoteAddress host request with
    | none => exact .inr ⟨rfl, allowed known⟩
    | some address =>
      left
      rw [known] at peer
      rw [peer, ne_eq, List.drop_eq_nil_iff, List.length_append, Option.toList_some, List.length_singleton]
      omega
  simp only [resolveHttpConnection, source, chain, clientIndexOf_eq nonempty, Option.bind_some, counts]
  rfl

theorem AlignedExtension.readIndexed {name : JsString} {n : Nat} {headers headers' : List (JsString × Option HeaderValue)}
    (aligned : AlignedExtension host name n headers headers') (i length : Nat) :
    readIndexedForwardingMetadata host headers' name (i + n) (n + length) =
      readIndexedForwardingMetadata host headers name i length := by
  rw [readIndexed_entries, readIndexed_entries]
  rcases aligned with ⟨absent, absent'⟩ | ⟨entries, s, before, after, count, filled⟩
  · rw [absent, absent']
    rfl
  · rw [before, after, Option.bind_some, Option.bind_some, listEntries_append, List.length_append, count,
      ← count, List.getElem?_append_right (Nat.le_add_left _ _), Nat.add_sub_cancel]
    have same : ((listEntries entries).length + (listEntries s).length = (listEntries entries).length + length ∧
        [] ∉ listEntries entries ++ listEntries s) ↔ ((listEntries s).length = length ∧ [] ∉ listEntries s) := by
      rw [List.mem_append, not_or, Nat.add_left_cancel_iff]
      exact ⟨fun h => ⟨h.1, h.2.2⟩, fun h => ⟨h.1, filled, h.2⟩⟩
    simp only [same]

/-- The addresses and the metadata of an extended list are those of the list, further right. -/
theorem ForwardingExtension.source {request request' : ConnectionRequest}
    (extension : ForwardingExtension host request.headers request'.headers) {forwarding : ForwardingSource}
    (source : resolveForwardingSource host request.headers = some forwarding) :
    ∃ forwarding' front, resolveForwardingSource host request'.headers = some forwarding' ∧
      forwarding'.addresses = front ++ forwarding.addresses ∧
      ∀ i, forwardedMetadata host request' forwarding' (i + front.length) = forwardedMetadata host request forwarding i := by
  cases extension with
  | forwarded front behind elements before after wellFormed =>
    rw [resolveForwardingSource, readHeader, before] at source
    obtain ⟨elements', parsed, rfl⟩ := Option.map_eq_some_iff.mp source
    refine ⟨.forwarded (elements ++ elements'), elements.map fun (element : ForwardedElement) => element.address, ?_,
      List.map_append, fun i => ?_⟩
    · rw [resolveForwardingSource, readHeader, after]
      show (parseForwarded host (nonEmpty (trim (front ++ comma :: behind)))).map ForwardingSource.forwarded = _
      rw [parseForwarded_append host wellFormed parsed]
      rfl
    · have there : (elements ++ elements')[i + elements.length]? = elements'[i]? := by
        rw [List.getElem?_append_right (Nat.le_add_left _ _), Nat.add_sub_cancel]
      simp only [forwardedMetadata, List.length_map, there]
  | xForwardedFor front behind addresses absent absent' before after wellFormed hosts protocols =>
    have unlisted : readHeader host request.headers (text "forwarded") = none := by rw [readHeader, absent]; rfl
    have unlisted' : readHeader host request'.headers (text "forwarded") = none := by rw [readHeader, absent']; rfl
    rw [resolveForwardingSource, unlisted, readHeader, before] at source
    obtain ⟨addresses', parsed, rfl⟩ := Option.map_eq_some_iff.mp source
    refine ⟨.xForwardedFor (addresses ++ addresses'), addresses, ?_, rfl, fun i => ?_⟩
    · rw [resolveForwardingSource, unlisted', readHeader, after]
      show (parseForwardedFor host (nonEmpty (trim (front ++ comma :: behind)))).map ForwardingSource.xForwardedFor = _
      rw [parseForwardedFor_append host wellFormed parsed]
      rfl
    · simp only [forwardedMetadata, ForwardingSource.addresses, List.length_append, hosts.readIndexed,
        protocols.readIndexed]

theorem clientPlace_append {policy : TrustProxyPolicy} (front : List JsString) {chain : List JsString}
    (untrusted : ∃ j < chain.length, trustedAt host policy chain j = false) :
    clientPlace host policy (front ++ chain) = clientPlace host policy chain + front.length := by
  obtain ⟨j, inside, no⟩ := untrusted
  have length : (front ++ chain).length - 1 = chain.length - 1 + front.length := by
    rw [List.length_append]
    omega
  rw [clientPlace, clientPlace, length]
  exact walkTrusted_add (fun i le => trustedAt_append policy front (by omega)) ⟨j, by omega, no⟩

/-- Where the peer is trusted, or missing, an address that is not trusted is forwarded. -/
theorem trustChain_cases (host : CaseMapping) (request : ConnectionRequest) (options : ResolveHttpConnectionOptions)
    (forwarding : ForwardingSource) :
    (∃ peer, resolveRemoteAddress host request = some peer ∧ isTrustedProxy host options.trustProxy peer 0 = false) ∨
      (trustChain host request options forwarding = [] ∧
        connectionChain host request options (some forwarding) = []) ∨
      ((resolveRemoteAddress host request = none → options.allowForwardedWithoutPeer = true) ∧
        options.trustProxy.isOn = true ∧ ∀ request' forwarding', SameTransport host request request' →
          trustChain host request' options forwarding' =
            forwarding'.addresses ++ (resolveRemoteAddress host request).toList ∧
          connectionChain host request' options (some forwarding') =
            forwarding'.addresses ++ (resolveRemoteAddress host request).toList) := by
  unfold trustChain connectionChain
  cases known : resolveRemoteAddress host request with
  | some peer =>
    cases trusted : isTrustedProxy host options.trustProxy peer 0 with
    | false => exact .inl ⟨peer, rfl, trusted⟩
    | true =>
      have on : options.trustProxy.isOn = true := by
        cases policy : options.trustProxy with
        | off =>
          rw [policy] at trusted
          exact absurd trusted Bool.false_ne_true
        | hops | rules | predicate => rfl
      refine .inr (.inr ⟨nofun, on, fun request' forwarding' same => ?_⟩)
      rw [same.remoteAddress, known]
      exact ⟨rfl, if_pos on⟩
  | none =>
    cases counts : options.allowForwardedWithoutPeer && options.trustProxy.isOn with
    | false => exact .inr (.inl ⟨if_neg Bool.false_ne_true, if_neg Bool.false_ne_true⟩)
    | true =>
      have both := Bool.and_eq_true_iff.mp counts
      refine .inr (.inr ⟨fun _ => both.1, both.2, fun request' forwarding' same => ?_⟩)
      rw [same.remoteAddress, known, Option.toList_none, List.append_nil]
      exact ⟨if_pos rfl, if_pos rfl⟩

theorem clientPlace_spec (host : CaseMapping) (policy : TrustProxyPolicy) {chain : List JsString} (nonempty : chain ≠ []) :
    clientPlace host policy chain < chain.length ∧
      (clientPlace host policy chain = 0 ∨ trustedAt host policy chain (clientPlace host policy chain) = false) ∧
      ∀ j < chain.length, clientPlace host policy chain < j → trustedAt host policy chain j = true := by
  have length : 0 < chain.length := List.length_pos_iff.mpr nonempty
  have le : clientPlace host policy chain ≤ chain.length - 1 := walkTrusted_le _ _
  exact ⟨by omega, walkTrusted_stop _ _, fun j inside above => walkTrusted_above above (by omega)⟩

theorem SameTransport.refl (request : ConnectionRequest) : SameTransport host request request := ⟨rfl, rfl, rfl⟩

theorem resolve_nobody {request : ConnectionRequest} {options : ResolveHttpConnectionOptions}
    {forwarding : ForwardingSource} (source : resolveForwardingSource host request.headers = some forwarding)
    (chain : connectionChain host request options (some forwarding) = []) :
    (resolveHttpConnection host request options).clientAddress = none ∧
      (resolveHttpConnection host request options).proxyChain = [] := by
  simp only [resolveHttpConnection, source, chain]
  exact ⟨rfl, rfl⟩

/-- The client is the first address that is not trusted, seen from the peer. -/
theorem resolve_client {request : ConnectionRequest} {options : ResolveHttpConnectionOptions}
    {forwarding : ForwardingSource} (source : resolveForwardingSource host request.headers = some forwarding) :
    ClientOf host options.trustProxy (trustChain host request options forwarding)
      (resolveHttpConnection host request options) := by
  rcases trustChain_cases host request options forwarding with
    ⟨peer, known, untrusted⟩ | ⟨nobody, chain⟩ | ⟨allowed, -, chains⟩
  · rw [resolve_direct known untrusted, trustChain, known]
    refine ⟨fun empty => absurd empty (by simp), fun _ => ⟨forwarding.addresses.length, by simp, by simp [connectionOf],
      by simp [connectionOf], .inr ?_, fun j inside above => ?_⟩⟩
    · rw [trustedAt_peer, untrusted]
    · rw [List.length_append, List.length_singleton] at inside
      omega
  · rw [nobody]
    exact ⟨fun _ => resolve_nobody source chain, fun nonempty => absurd rfl nonempty⟩
  · obtain ⟨trust, chain⟩ := chains request forwarding (.refl request)
    rw [trust]
    by_cases empty : forwarding.addresses ++ (resolveRemoteAddress host request).toList = []
    · rw [empty] at chain
      rw [empty]
      exact ⟨fun _ => resolve_nobody source chain, fun nonempty => absurd rfl nonempty⟩
    · obtain ⟨inside, stop, above⟩ := clientPlace_spec host options.trustProxy empty
      rw [resolve_forwarded source rfl chain empty allowed]
      exact ⟨fun none => absurd none empty, fun _ => ⟨_, inside, rfl, rfl, stop, above⟩⟩

/-- Elements in front of the forwarding list do not reach the connection. -/
theorem resolve_extension {request request' : ConnectionRequest} {options : ResolveHttpConnectionOptions}
    {forwarding : ForwardingSource} (source : resolveForwardingSource host request.headers = some forwarding)
    (same : SameTransport host request request') (extension : ForwardingExtension host request.headers request'.headers)
    (untrusted : ∃ i < (trustChain host request options forwarding).length,
      trustedAt host options.trustProxy (trustChain host request options forwarding) i = false) :
    resolveHttpConnection host request' options = resolveHttpConnection host request options := by
  rcases trustChain_cases host request options forwarding with
    ⟨peer, known, distrusted⟩ | ⟨nobody, -⟩ | ⟨allowed, -, chains⟩
  · rw [resolve_direct known distrusted, resolve_direct (same.remoteAddress.trans known) distrusted, same.connectionOf]
  · obtain ⟨i, inside, -⟩ := untrusted
    rw [nobody] at inside
    exact absurd inside (Nat.not_lt_zero i)
  · obtain ⟨forwarding', front, source', addresses, metadata⟩ := extension.source source
    obtain ⟨trust, chain⟩ := chains request forwarding (.refl request)
    have chain' := (chains request' forwarding' same).2
    rw [trust] at untrusted
    have nonempty : forwarding.addresses ++ (resolveRemoteAddress host request).toList ≠ [] := by
      obtain ⟨i, inside, -⟩ := untrusted
      exact List.ne_nil_of_length_pos (by omega)
    have nonempty' : forwarding'.addresses ++ (resolveRemoteAddress host request).toList ≠ [] := by
      rw [addresses, List.append_assoc]
      exact List.append_ne_nil_of_right_ne_nil front nonempty
    have place := clientPlace_append front untrusted
    rw [resolve_forwarded source rfl chain nonempty allowed,
      resolve_forwarded source' (congrArg _ same.remoteAddress.symm) chain' nonempty'
        fun none => allowed (same.remoteAddress.symm.trans none)]
    simp only [addresses, List.append_assoc, place, same.connectionOf, metadata, List.length_append]
    have client (i : Nat) (chain : List JsString) : (front ++ chain)[i + front.length]? = chain[i]? := by
      rw [List.getElem?_append_right (Nat.le_add_left _ _), Nat.add_sub_cancel]
    have proxies (i : Nat) (chain : List JsString) :
        (front ++ chain).drop (i + front.length + 1) = chain.drop (i + 1) := by
      rw [Nat.add_right_comm, List.drop_append, List.drop_eq_nil_of_le (by omega), List.nil_append,
        Nat.add_sub_cancel]
    have inside (i : Nat) : (i + front.length < front.length + forwarding.addresses.length) ↔
        i < forwarding.addresses.length := by omega
    rw [client, proxies]
    simp only [inside]

end

/-- What a client writes into the forwarding headers before the trusted proxies
add to them does not change who it is. -/
theorem resolveHttpConnection_unspoofable (host : CaseMapping) (request : ConnectionRequest)
    (options : ResolveHttpConnectionOptions) :
    (∀ forwarding, resolveForwardingSource host request.headers = some forwarding →
      ClientOf host options.trustProxy (trustChain host request options forwarding)
        (resolveHttpConnection host request options)) ∧
    (∀ forwarding, resolveForwardingSource host request.headers = some forwarding →
      (∃ i < (trustChain host request options forwarding).length,
        trustedAt host options.trustProxy (trustChain host request options forwarding) i = false) →
      ∀ request', SameTransport host request request' →
        ForwardingExtension host request.headers request'.headers →
        resolveHttpConnection host request' options = resolveHttpConnection host request options) ∧
    (∀ peer, resolveRemoteAddress host request = some peer →
      isTrustedProxy host options.trustProxy peer 0 = false →
      ∀ request', SameTransport host request request' →
        resolveHttpConnection host request' options = resolveHttpConnection host request options) := by
  refine ⟨fun forwarding source => resolve_client source,
    fun forwarding source untrusted request' same extension => resolve_extension source same extension untrusted,
    fun peer known untrusted request' same => ?_⟩
  rw [resolve_direct known untrusted, resolve_direct (same.remoteAddress.trans known) untrusted, same.connectionOf]

def proxiedRequest (forwardedFor : String) : ConnectionRequest where
  headers := [(text "host", some (.one (text "shop.test"))), (text "x-forwarded-for", some (.one (text forwardedFor)))]
  connection := some ⟨some (text "10.0.0.1"), some .http⟩
  socket := none

theorem resolveHttpConnection_unspoofable_proxied :
    resolveHttpConnection .same (proxiedRequest "9.9.9.9,8.8.8.8") ⟨.hops (some 1), false⟩ =
        resolveHttpConnection .same (proxiedRequest "8.8.8.8") ⟨.hops (some 1), false⟩ ∧
      (resolveHttpConnection .same (proxiedRequest "8.8.8.8") ⟨.hops (some 1), false⟩).clientAddress =
        some (text "8.8.8.8") ∧
      ClientOf .same (.hops (some 1)) [text "8.8.8.8", text "10.0.0.1"]
        (resolveHttpConnection .same (proxiedRequest "8.8.8.8") ⟨.hops (some 1), false⟩) ∧
      resolveHttpConnection .same (proxiedRequest "9.9.9.9") ⟨.hops (some 0), false⟩ =
        resolveHttpConnection .same (proxiedRequest "8.8.8.8") ⟨.hops (some 0), false⟩ := by
  have source : resolveForwardingSource .same (proxiedRequest "8.8.8.8").headers =
      some (.xForwardedFor [text "8.8.8.8"]) := by decide +kernel
  obtain ⟨client, extension, -⟩ :=
    resolveHttpConnection_unspoofable .same (proxiedRequest "8.8.8.8") ⟨.hops (some 1), false⟩
  obtain ⟨-, -, direct⟩ :=
    resolveHttpConnection_unspoofable .same (proxiedRequest "8.8.8.8") ⟨.hops (some 0), false⟩
  have same (forwardedFor : String) :
      SameTransport .same (proxiedRequest "8.8.8.8") (proxiedRequest forwardedFor) := ⟨rfl, rfl, rfl⟩
  refine ⟨extension _ source ⟨0, by decide +kernel, by decide +kernel⟩ _ (same _) ?_, by decide +kernel,
    client _ source, direct (text "10.0.0.1") (by decide +kernel) (by decide +kernel) _ (same _)⟩
  exact .xForwardedFor (text "9.9.9.9") (text "8.8.8.8") [text "9.9.9.9"] (by decide +kernel) (by decide +kernel)
    (by decide +kernel) (by decide +kernel) (by decide +kernel) (.inl (by decide +kernel)) (.inl (by decide +kernel))

end Fluo.Http
