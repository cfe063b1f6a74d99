import Fluo.Lib.JsString

/-!
# UTF-8 with replacement

The decoder of the Encoding Standard: octets that are no UTF-8 become U+FFFD, and
an octet that breaks off a sequence is read again as the first of the next one.
-/

namespace Fluo.Utf8

def replacement : Char := Char.ofNat 0xFFFD

/-- A sequence that is being read: how many octets are missing, the bits so far
and the bounds of the next octet. -/
structure Pending where
  needed : Nat
  point : Nat
  lower : Nat
  upper : Nat
  deriving DecidableEq, Repr

def begin (octet : Nat) : List Char × Option Pending :=
  if octet ≤ 0x7F then ([Char.ofNat octet], none)
  else if 0xC2 ≤ octet ∧ octet ≤ 0xDF then ([], some ⟨1, octet - 0xC0, 0x80, 0xBF⟩)
  else if 0xE0 ≤ octet ∧ octet ≤ 0xEF then
    ([], some ⟨2, octet - 0xE0, if octet = 0xE0 then 0xA0 else 0x80, if octet = 0xED then 0x9F else 0xBF⟩)
  else if 0xF0 ≤ octet ∧ octet ≤ 0xF4 then
    ([], some ⟨3, octet - 0xF0, if octet = 0xF0 then 0x90 else 0x80, if octet = 0xF4 then 0x8F else 0xBF⟩)
  else ([replacement], none)

def step (octet : Nat) : Option Pending → List Char × Option Pending
  | none => begin octet
  | some p =>
    if p.lower ≤ octet ∧ octet ≤ p.upper then
      let point := p.point * 64 + (octet - 0x80)
      if p.needed = 1 then ([Char.ofNat point], none) else ([], some ⟨p.needed - 1, point, 0x80, 0xBF⟩)
    else (replacement :: (begin octet).1, (begin octet).2)

def decodeFrom : Option Pending → List UInt8 → List Char
  | none, [] => []
  | some _, [] => [replacement]
  | pending, octet :: rest => (step octet.toNat pending).1 ++ decodeFrom (step octet.toNat pending).2 rest

def decode (octets : List UInt8) : List Char := decodeFrom none octets

def encode (cs : List Char) : List UInt8 := cs.flatMap String.utf8EncodeChar

/-! ## Well-formed octets -/

theorem octet_toNat {n : Nat} (h : n < 256) : (UInt8.ofNat n).toNat = n := by
  rw [UInt8.toNat_ofNat']
  exact Nat.mod_eq_of_lt h

theorem begin_one {n : Nat} (h : n ≤ 0x7F) : begin n = ([Char.ofNat n], none) := if_pos h

theorem begin_two {n : Nat} (low : 0xC2 ≤ n) (high : n ≤ 0xDF) : begin n = ([], some ⟨1, n - 0xC0, 0x80, 0xBF⟩) := by
  rw [begin, if_neg (by omega), if_pos ⟨low, high⟩]

theorem begin_three {n : Nat} (low : 0xE0 ≤ n) (high : n ≤ 0xEF) :
    begin n = ([], some ⟨2, n - 0xE0, if n = 0xE0 then 0xA0 else 0x80, if n = 0xED then 0x9F else 0xBF⟩) := by
  rw [begin, if_neg (by omega), if_neg (by omega), if_pos ⟨low, high⟩]

theorem begin_four {n : Nat} (low : 0xF0 ≤ n) (high : n ≤ 0xF4) :
    begin n = ([], some ⟨3, n - 0xF0, if n = 0xF0 then 0x90 else 0x80, if n = 0xF4 then 0x8F else 0xBF⟩) := by
  rw [begin, if_neg (by omega), if_neg (by omega), if_neg (by omega), if_pos ⟨low, high⟩]

theorem step_last {octet point lower upper : Nat} (low : lower ≤ octet) (high : octet ≤ upper) :
    step octet (some ⟨1, point, lower, upper⟩) = ([Char.ofNat (point * 64 + (octet - 0x80))], none) := by
  rw [step, if_pos ⟨low, high⟩]
  rfl

theorem step_more {octet needed point lower upper : Nat} (more : 1 < needed) (low : lower ≤ octet) (high : octet ≤ upper) :
    step octet (some ⟨needed, point, lower, upper⟩) =
      ([], some ⟨needed - 1, point * 64 + (octet - 0x80), 0x80, 0xBF⟩) := by
  rw [step, if_pos ⟨low, high⟩]
  exact if_neg (by dsimp only; omega)

theorem decode_encodeChar (c : Char) (rest : List UInt8) :
    decode (String.utf8EncodeChar c ++ rest) = c :: decode rest := by
  have valid : c.toNat < 0xD800 ∨ 0xDFFF < c.toNat ∧ c.toNat < 0x110000 := c.valid
  have back : Char.ofNat c.toNat = c := Char.ofNat_toNat c
  have value : c.val.toNat = c.toNat := rfl
  unfold decode String.utf8EncodeChar
  simp only [value]
  generalize c.toNat = v at valid back
  split
  · rw [List.singleton_append, decodeFrom, octet_toNat (by omega), step, begin_one (by omega), back]
    rfl
  split
  · rw [List.cons_append, List.singleton_append, decodeFrom, octet_toNat (by omega), step,
      begin_two (by omega) (by omega), decodeFrom, octet_toNat (by omega), step_last (by omega) (by omega)]
    have point : (v / 64 % 32 + 192 - 192) * 64 + (v % 64 + 128 - 128) = v := by omega
    rw [point, back]
    rfl
  split
  · have lower : (if v / 4096 % 16 + 224 = 0xE0 then 0xA0 else 0x80) ≤ v / 64 % 64 + 128 := by
      split <;> omega
    have upper : v / 64 % 64 + 128 ≤ (if v / 4096 % 16 + 224 = 0xED then 0x9F else 0xBF) := by
      split <;> omega
    rw [List.cons_append, List.cons_append, List.singleton_append, decodeFrom, octet_toNat (by omega), step,
      begin_three (by omega) (by omega), decodeFrom, octet_toNat (by omega), step_more (by decide) lower upper,
      decodeFrom, octet_toNat (by omega), step_last (by omega) (by omega)]
    have point : ((v / 4096 % 16 + 224 - 224) * 64 + (v / 64 % 64 + 128 - 128)) * 64 + (v % 64 + 128 - 128) = v := by
      omega
    rw [point, back]
    rfl
  · have lower : (if v / 262144 % 8 + 240 = 0xF0 then 0x90 else 0x80) ≤ v / 4096 % 64 + 128 := by
      split <;> omega
    have upper : v / 4096 % 64 + 128 ≤ (if v / 262144 % 8 + 240 = 0xF4 then 0x8F else 0xBF) := by
      split <;> omega
    rw [List.cons_append, List.cons_append, List.cons_append, List.singleton_append, decodeFrom,
      octet_toNat (by omega), step, begin_four (by omega) (by omega), decodeFrom, octet_toNat (by omega),
      step_more (by decide) lower upper, decodeFrom, octet_toNat (by omega),
      step_more (by decide) (by omega) (by omega), decodeFrom, octet_toNat (by omega), step_last (by omega) (by omega)]
    have point : (((v / 262144 % 8 + 240 - 240) * 64 + (v / 4096 % 64 + 128 - 128)) * 64 + (v / 64 % 64 + 128 - 128)) * 64 +
        (v % 64 + 128 - 128) = v := by
      omega
    rw [point, back]
    rfl

theorem encode_cons (c : Char) (cs : List Char) : encode (c :: cs) = String.utf8EncodeChar c ++ encode cs :=
  List.flatMap_cons

theorem encode_append (cs ds : List Char) : encode (cs ++ ds) = encode cs ++ encode ds := List.flatMap_append

theorem decode_encode_append (cs : List Char) (rest : List UInt8) : decode (encode cs ++ rest) = cs ++ decode rest := by
  induction cs with
  | nil => rfl
  | cons c cs ih =>
    rw [encode_cons, List.append_assoc, decode_encodeChar, ih]
    rfl

theorem decode_encode (cs : List Char) : decode (encode cs) = cs := by
  have read := decode_encode_append cs []
  rwa [List.append_nil, show decode [] = [] from rfl, List.append_nil] at read

theorem encode_ascii {c : Char} (h : c.toNat < 128) : String.utf8EncodeChar c = [UInt8.ofNat c.toNat] := by
  have small : c.val.toNat ≤ 0x7F := Nat.le_of_lt_succ h
  unfold String.utf8EncodeChar
  exact if_pos small

theorem mem_encodeChar {c : Char} {octet : UInt8} (mem : octet ∈ String.utf8EncodeChar c) (small : octet.toNat < 128) :
    octet = UInt8.ofNat c.toNat ∧ c.toNat < 128 := by
  have value : c.val.toNat = c.toNat := rfl
  have other {n : Nat} (low : 128 ≤ n) (high : n < 256) : octet ≠ UInt8.ofNat n := by
    rintro rfl
    rw [octet_toNat high] at small
    omega
  unfold String.utf8EncodeChar at mem
  simp only [value] at mem
  split at mem
  next low => exact ⟨List.mem_singleton.mp mem, by omega⟩
  split at mem
  · rcases List.mem_cons.mp mem with same | mem
    · exact absurd same (other (by omega) (by omega))
    · exact absurd (List.mem_singleton.mp mem) (other (by omega) (by omega))
  split at mem
  · rcases List.mem_cons.mp mem with same | mem
    · exact absurd same (other (by omega) (by omega))
    rcases List.mem_cons.mp mem with same | mem
    · exact absurd same (other (by omega) (by omega))
    · exact absurd (List.mem_singleton.mp mem) (other (by omega) (by omega))
  · rcases List.mem_cons.mp mem with same | mem
    · exact absurd same (other (by omega) (by omega))
    rcases List.mem_cons.mp mem with same | mem
    · exact absurd same (other (by omega) (by omega))
    rcases List.mem_cons.mp mem with same | mem
    · exact absurd same (other (by omega) (by omega))
    · exact absurd (List.mem_singleton.mp mem) (other (by omega) (by omega))

end Fluo.Utf8
