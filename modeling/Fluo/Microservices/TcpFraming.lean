import Fluo.Lib.JsonRoundTrip

/-!
# Frames of a TCP socket

A packet is written as its JSON text and a line feed. The parser of a socket keeps the
octets after the last line feed until more of them arrive, so the packets it delivers
and whether it destroys the socket must not depend on where the stream was cut.
-/

namespace Fluo.Microservices.Tcp

open Js

/-- A JSON value as a program holds it: no object has a key twice. -/
structure Packet (N : Type) where
  value : Json N
  distinct : value.Distinct

section

variable {N : Type} (format : NumberFormat N) (maxFrameBytes : Nat)

def lineFeed : UInt8 := 0x0a

/-! ## Writing -/

/-- Throws when the line is too long for the writer itself. -/
def serializeFrame (packet : Packet N) : Option JsString :=
  let line := stringify format packet.value
  if (octetsOf line).length > maxFrameBytes then none else some line

def writeLine (line : JsString) : List UInt8 := octetsOf (line ++ text "\n")

/-- The octets of the packets, as they are written one after another. -/
def stream (packets : List (Packet N)) : List UInt8 := packets.flatMap fun p => writeLine (stringify format p.value)

/-! ## Reading -/

inductive Chunk where
  | buffer (octets : List UInt8)
  | string (s : JsString)

def Chunk.octets : Chunk → List UInt8
  | .buffer octets => octets
  | .string s => octetsOf s

structure SocketParser (N : Type) where
  buffer : List UInt8
  delivered : List (Json N)
  destroyed : Bool

/-- The loop over the complete lines of a buffer. `onPacket` does not throw before it
returns, so a packet that was parsed counts as delivered. -/
def drain (buffer : List UInt8) (delivered : List (Json N)) : SocketParser N :=
  match _found : buffer.idxOf? lineFeed with
  | none => ⟨buffer, delivered, decide (buffer.length > maxFrameBytes)⟩
  | some newLineIndex =>
    let rawLine := buffer.take newLineIndex
    let rest := buffer.drop (newLineIndex + 1)
    if rawLine.length > maxFrameBytes then ⟨rest, delivered, true⟩
    else
      let line := trim ((Utf8.decode rawLine).flatMap utf16)
      if line = [] then drain rest delivered
      else
        match parseJson format line with
        | none => ⟨rest, delivered, true⟩
        | some packet => drain rest (delivered ++ [packet])
termination_by buffer.length
decreasing_by
  all_goals
    have inside := (List.idxOf?_eq_some_iff.mp _found).1
    rw [List.length_drop]
    omega

def onData (s : SocketParser N) (chunk : Chunk) : SocketParser N :=
  if s.destroyed then s else drain format maxFrameBytes (s.buffer ++ chunk.octets) s.delivered

def receive (chunks : List Chunk) : SocketParser N := chunks.foldl (onData format maxFrameBytes) ⟨[], [], false⟩

def Fits (packet : Packet N) : Prop := (octetsOf (stringify format packet.value)).length ≤ maxFrameBytes

instance (packet : Packet N) : Decidable (Fits format maxFrameBytes packet) := inferInstanceAs (Decidable (_ ≤ _))

/-! ## One buffer -/

theorem writeLine_eq (line : JsString) : writeLine line = octetsOf line ++ [lineFeed] := octetsOf_append (by decide) line []

theorem drain_open {buffer : List UInt8} (unfinished : lineFeed ∉ buffer) (delivered : List (Json N)) :
    drain format maxFrameBytes buffer delivered = ⟨buffer, delivered, decide (buffer.length > maxFrameBytes)⟩ := by
  have none_ := List.idxOf?_eq_none_iff.mpr unfinished
  rw [drain]
  split
  · rfl
  next found =>
    rw [none_] at found
    cases found

theorem idxOf_line {line : List UInt8} (free : lineFeed ∉ line) (rest : List UInt8) :
    (line ++ lineFeed :: rest).idxOf? lineFeed = some line.length := by
  induction line with
  | nil => rfl
  | cons octet line ih =>
    obtain ⟨other, later⟩ := not_or.mp (mt List.mem_cons.mpr free)
    rw [List.cons_append, List.idxOf?_cons, if_neg (by simpa using Ne.symm other), ih later]
    rfl

/-- A packet at the front of a buffer is delivered, unless its frame is too long. -/
theorem drain_frame (packet : Packet N) (rest : List UInt8) (delivered : List (Json N)) :
    drain format maxFrameBytes (writeLine (stringify format packet.value) ++ rest) delivered =
      if (octetsOf (stringify format packet.value)).length > maxFrameBytes then ⟨rest, delivered, true⟩
      else drain format maxFrameBytes rest (delivered ++ [packet.value]) := by
  have index := idxOf_line (lineFeed_not_mem format packet.value) rest
  have back : trim ((Utf8.decode (octetsOf (stringify format packet.value))).flatMap utf16) = stringify format packet.value := by
    rw [decode_stringify, trim_stringify]
  rw [writeLine_eq, List.append_assoc, List.singleton_append]
  conv_lhs => unfold drain
  split
  next found =>
    rw [index] at found
    cases found
  next newLineIndex found =>
    rw [index] at found
    obtain rfl := Option.some.inj found
    have tail : (octetsOf (stringify format packet.value) ++ lineFeed :: rest).drop
        ((octetsOf (stringify format packet.value)).length + 1) = rest := by
      rw [← List.drop_drop, List.drop_left]
      rfl
    dsimp only
    rw [List.take_left, tail, back, if_neg (stringify_ne_nil format packet.value),
      parseJson_stringify format packet.value packet.distinct]

/-! ## A stream that was cut -/

theorem stream_cons (packet : Packet N) (packets : List (Packet N)) :
    stream format (packet :: packets) = writeLine (stringify format packet.value) ++ stream format packets := List.flatMap_cons

/-- What a parser has made of a stream of which `later` is still to come. It waits in the
frame after the packets it delivered, or it met the first frame that is too long. -/
inductive Received (packets : List (Packet N)) (done : List (Json N)) (later : List UInt8) (s : SocketParser N) : Prop
  | waits (taken left : List (Packet N)) (split : packets = taken ++ left) (fit : ∀ p ∈ taken, Fits format maxFrameBytes p)
      (delivered : s.delivered = done ++ taken.map Packet.value) (alive : s.destroyed = false)
      (unfinished : lineFeed ∉ s.buffer) (kept : s.buffer ++ later = stream format left)
  | rejects (taken : List (Packet N)) (packet : Packet N) (left : List (Packet N)) (split : packets = taken ++ packet :: left)
      (fit : ∀ p ∈ taken, Fits format maxFrameBytes p) (long : ¬ Fits format maxFrameBytes packet)
      (delivered : s.delivered = done ++ taken.map Packet.value) (destroyed : s.destroyed = true)

theorem Received.after {first packets : List (Packet N)} {done : List (Json N)} {later : List UInt8} {s : SocketParser N}
    (fits : ∀ p ∈ first, Fits format maxFrameBytes p)
    (h : Received format maxFrameBytes packets (done ++ first.map Packet.value) later s) :
    Received format maxFrameBytes (first ++ packets) done later s := by
  have both {taken : List (Packet N)} (fit : ∀ p ∈ taken, Fits format maxFrameBytes p) :
      ∀ p ∈ first ++ taken, Fits format maxFrameBytes p := List.forall_mem_append.mpr ⟨fits, fit⟩
  have joined (taken : List (Packet N)) :
      done ++ first.map Packet.value ++ taken.map Packet.value = done ++ (first ++ taken).map Packet.value := by
    rw [List.map_append, List.append_assoc]
  cases h with
  | waits taken left split fit delivered alive unfinished kept =>
    exact .waits (first ++ taken) left (by rw [split, List.append_assoc]) (both fit) (by rw [delivered, joined]) alive unfinished kept
  | rejects taken packet left split fit long delivered destroyed =>
    exact .rejects (first ++ taken) packet left (by rw [split, List.append_assoc]) (both fit) long (by rw [delivered, joined]) destroyed

/-- A text with a line feed after it, cut in two: the cut is inside the text, or behind. -/
theorem cut_line {line rest buffer later : List UInt8} (h : buffer ++ later = line ++ lineFeed :: rest) :
    (∃ back, line = buffer ++ back ∧ later = back ++ lineFeed :: rest) ∨
      ∃ more, buffer = line ++ lineFeed :: more ∧ more ++ later = rest := by
  rcases List.append_eq_append_iff.mp h with ⟨back, inside, follows⟩ | ⟨front, behind, follows⟩
  · exact .inl ⟨back, inside, follows⟩
  · cases front with
    | nil =>
      rw [List.append_nil] at behind
      exact .inl ⟨[], by rw [behind, List.append_nil], follows.symm⟩
    | cons octet front =>
      injection follows with same follows
      subst same
      exact .inr ⟨front, behind, follows.symm⟩

theorem drain_received (packets : List (Packet N)) (done : List (Json N)) {buffer later : List UInt8}
    (whole : buffer ++ later = stream format packets) :
    Received format maxFrameBytes packets done later (drain format maxFrameBytes buffer done) := by
  induction packets generalizing buffer done with
  | nil =>
    obtain ⟨empty, -⟩ := List.append_eq_nil_iff.mp whole
    subst empty
    rw [drain_open format maxFrameBytes List.not_mem_nil]
    exact .waits [] [] rfl nofun (List.append_nil done).symm (by simp) List.not_mem_nil whole
  | cons packet packets ih =>
    rw [stream_cons, writeLine_eq, List.append_assoc, List.singleton_append] at whole
    rcases cut_line whole with ⟨back, inside, follows⟩ | ⟨more, behind, follows⟩
    · have unfinished : lineFeed ∉ buffer := fun mem =>
        lineFeed_not_mem format packet.value (inside ▸ List.mem_append_left _ mem)
      rw [drain_open format maxFrameBytes unfinished]
      by_cases long : buffer.length > maxFrameBytes
      · refine .rejects [] packet packets rfl nofun (fun fits => ?_) (List.append_nil done).symm (decide_eq_true long)
        rw [Fits, inside, List.length_append] at fits
        omega
      · refine .waits [] (packet :: packets) rfl nofun (List.append_nil done).symm (decide_eq_false long) unfinished ?_
        rw [stream_cons, writeLine_eq, List.append_assoc, List.singleton_append]
        exact whole
    · have shape : buffer = writeLine (stringify format packet.value) ++ more := by
        rw [writeLine_eq, List.append_assoc, List.singleton_append]
        exact behind
      rw [shape, drain_frame]
      split
      next long => exact .rejects [] packet packets rfl nofun (Nat.not_le.mpr long) (List.append_nil done).symm rfl
      next fits =>
        have one : ∀ p ∈ [packet], Fits format maxFrameBytes p := List.forall_mem_singleton.mpr (Nat.not_lt.mp fits)
        exact .after format maxFrameBytes one (ih (done ++ [packet.value]) follows)

theorem onData_received {packets : List (Packet N)} {later : List UInt8} {s : SocketParser N} {chunk : Chunk}
    (h : Received format maxFrameBytes packets [] (chunk.octets ++ later) s) :
    Received format maxFrameBytes packets [] later (onData format maxFrameBytes s chunk) := by
  cases h with
  | waits taken left split fit delivered alive unfinished kept =>
    rw [← List.append_assoc] at kept
    rw [onData, alive, if_neg Bool.false_ne_true, delivered, split]
    exact .after format maxFrameBytes fit (drain_received format maxFrameBytes left _ kept)
  | rejects taken packet left split fit long delivered destroyed =>
    rw [onData, destroyed, if_pos rfl]
    exact .rejects taken packet left split fit long delivered destroyed

theorem receive_received {packets : List (Packet N)} {chunks : List Chunk}
    (whole : chunks.flatMap Chunk.octets = stream format packets) :
    Received format maxFrameBytes packets [] [] (receive format maxFrameBytes chunks) := by
  have run (s : SocketParser N) (h : Received format maxFrameBytes packets [] (chunks.flatMap Chunk.octets) s) :
      Received format maxFrameBytes packets [] [] (chunks.foldl (onData format maxFrameBytes) s) := by
    clear whole
    induction chunks generalizing s with
    | nil => exact h
    | cons chunk chunks ih => exact ih _ (onData_received format maxFrameBytes (by rwa [List.flatMap_cons] at h))
  exact run _ (.waits [] packets rfl nofun rfl rfl List.not_mem_nil whole)

/-- The first frame that is too long is found only once. -/
theorem first_unique {A : Type} {P : A → Prop} {l m l' m' : List A} {a b : A} (same : l ++ a :: m = l' ++ b :: m')
    (hl : ∀ x ∈ l, P x) (ha : ¬ P a) (hl' : ∀ x ∈ l', P x) (hb : ¬ P b) : l = l' := by
  induction l generalizing l' with
  | nil =>
    cases l' with
    | nil => rfl
    | cons c l' =>
      injection same with head
      exact absurd (head ▸ hl' c List.mem_cons_self) ha
  | cons c l ih =>
    cases l' with
    | nil =>
      injection same with head
      exact absurd (head ▸ hl c List.mem_cons_self) hb
    | cons d l' =>
      injection same with head rest
      rw [head, ih rest (fun x mem => hl x (List.mem_cons_of_mem _ mem)) (fun x mem => hl' x (List.mem_cons_of_mem _ mem))]

/-- However a stream of packets is cut, the parser delivers the packets before the first
frame that is too long, and destroys the socket exactly if there is one. -/
theorem receive_packets {packets : List (Packet N)} {chunks : List Chunk}
    (whole : chunks.flatMap Chunk.octets = stream format packets) :
    ((∀ p ∈ packets, Fits format maxFrameBytes p) → (receive format maxFrameBytes chunks).delivered = packets.map Packet.value ∧
      (receive format maxFrameBytes chunks).destroyed = false) ∧
    ∀ before packet after, packets = before ++ packet :: after → (∀ p ∈ before, Fits format maxFrameBytes p) →
      ¬ Fits format maxFrameBytes packet → (receive format maxFrameBytes chunks).delivered = before.map Packet.value ∧
        (receive format maxFrameBytes chunks).destroyed = true := by
  have result := receive_received format maxFrameBytes whole
  generalize receive format maxFrameBytes chunks = s at result
  cases result with
  | waits taken left split fit delivered alive unfinished kept =>
    have none_ : left = [] := by
      cases left with
      | nil => rfl
      | cons packet left =>
        rw [List.append_nil, stream_cons, writeLine_eq] at kept
        exact absurd (kept ▸ by simp) unfinished
    rw [none_, List.append_nil] at split
    refine ⟨fun _ => ⟨by rw [delivered, split, List.nil_append], alive⟩, fun before packet after parts _ long => ?_⟩
    exact absurd (fit packet (by rw [← split, parts]; simp)) long
  | rejects taken longOne left split fit long delivered destroyed =>
    refine ⟨fun all => ?_, fun before packet after parts fits long' => ⟨?_, destroyed⟩⟩
    · exact absurd (all longOne (by rw [split]; simp)) long
    · rw [delivered, List.nil_append, first_unique (split.symm.trans parts) fit long fits long']

end

/-- The packet `"é"`, cut inside its letter, is delivered before a frame of nine octets is refused. -/
theorem receive_split_letter :
    let chunks : List Chunk := [.buffer [0x22, 0xC3], .buffer [0xA9, 0x22, 0x0A, 0x22], .string (text "1234567\"\n")]
    (receive decimalFormat 8 chunks).delivered = [.string [0xE9]] ∧ (receive decimalFormat 8 chunks).destroyed = true := by
  let letter : Packet Decimal := ⟨.string [0xE9], trivial⟩
  let digits : Packet Decimal := ⟨.string (text "1234567"), trivial⟩
  have fits : Fits decimalFormat 8 letter := by decide
  have long : ¬ Fits decimalFormat 8 digits := by decide
  exact (receive_packets decimalFormat 8 (show _ = stream decimalFormat [letter, digits] by decide)).2 [letter] digits [] rfl
    (List.forall_mem_singleton.mpr fits) long

end Fluo.Microservices.Tcp
