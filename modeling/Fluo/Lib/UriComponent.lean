import Fluo.Lib.Utf8

/-!
# decodeURIComponent

The inverse of `encodeURIComponent`: escaped octets are read as UTF-8, all other
code units stand for themselves, and an escape that is no UTF-8 is an error.
-/

namespace Fluo.Js

open Utf8

def hexValue (n : Nat) : Option Nat :=
  if 48 ≤ n ∧ n ≤ 57 then some (n - 48)
  else if 65 ≤ n ∧ n ≤ 70 then some (n - 55)
  else if 97 ≤ n ∧ n ≤ 102 then some (n - 87)
  else none

/-- The octet that two hexadecimal digits stand for. -/
def hexOctet (a b : Nat) : Option UInt8 :=
  (hexValue a).bind fun high => (hexValue b).map fun low => UInt8.ofNat (high * 16 + low)

/-- How many octets a sequence with this first octet has. -/
def sequenceLength (octet : Nat) : Option Nat :=
  if octet < 0x80 then some 1
  else if octet < 0xC0 then none
  else if octet < 0xE0 then some 2
  else if octet < 0xF0 then some 3
  else if octet < 0xF8 then some 4
  else none

def utf8Char (octets : List UInt8) : Option Char :=
  match decode octets with
  | [c] => if String.utf8EncodeChar c = octets then some c else none
  | _ => none

/-- Reads on with the octets of the sequence so far and the number of those that
are missing. -/
def decodeWith (octets : List UInt8) (needed : Nat) : JsString → Option JsString
  | [] => if needed = 0 then some [] else none
  | u :: rest =>
    if u = unit '%' then
      match rest with
      | a :: b :: rest =>
        match hexOctet a.toNat b.toNat with
        | none => none
        | some octet =>
          match needed with
          | 0 =>
            match sequenceLength octet.toNat with
            | none => none
            | some 1 => (decodeWith [] 0 rest).map (octet.toUInt16 :: ·)
            | some n => decodeWith [octet] (n - 1) rest
          | 1 => (utf8Char (octets ++ [octet])).bind fun c => (decodeWith [] 0 rest).map (utf16 c ++ ·)
          | n + 2 => decodeWith (octets ++ [octet]) (n + 1) rest
      | _ => none
    else if needed = 0 then (decodeWith [] 0 rest).map (u :: ·)
    else none

def decodeURIComponent (s : JsString) : Option JsString := decodeWith [] 0 s

/-! ## What is decoded -/

/-- A text is the percent-encoded form of octets, in digits of any case. -/
inductive Escapes : JsString → List UInt8 → Prop
  | nil : Escapes [] []
  | cons {a b : UInt16} {octet : UInt8} {x : JsString} {octets : List UInt8} (digits : hexOctet a.toNat b.toNat = some octet)
      (rest : Escapes x octets) : Escapes (unit '%' :: a :: b :: x) (octet :: octets)

inductive Decodes : JsString → JsString → Prop
  | nil : Decodes [] []
  | kept {u : UInt16} {s t : JsString} (plain : u ≠ unit '%') (rest : Decodes s t) : Decodes (u :: s) (u :: t)
  | escaped {c : Char} {x s t : JsString} (escapes : Escapes x (String.utf8EncodeChar c)) (rest : Decodes s t) :
      Decodes (x ++ s) (utf16 c ++ t)

theorem hexValue_lt {n v : Nat} (h : hexValue n = some v) : n < 128 ∧ v < 16 := by
  unfold hexValue at h
  split at h
  · cases h
    omega
  split at h
  · cases h
    omega
  split at h
  · cases h
    omega
  · cases h

theorem hexOctet_some {a b : Nat} {octet : UInt8} (h : hexOctet a b = some octet) : a < 128 ∧ b < 128 := by
  obtain ⟨high, first, h⟩ := Option.bind_eq_some_iff.mp h
  obtain ⟨low, second, -⟩ := Option.map_eq_some_iff.mp h
  exact ⟨(hexValue_lt first).1, (hexValue_lt second).1⟩

theorem utf8Char_encodeChar (c : Char) : utf8Char (String.utf8EncodeChar c) = some c := by
  have read : decode (String.utf8EncodeChar c) = [c] := by
    have := decode_encodeChar c []
    rwa [List.append_nil] at this
  rw [utf8Char, read]
  exact if_pos rfl

theorem utf8Char_some {octets : List UInt8} {c : Char} (h : utf8Char octets = some c) : String.utf8EncodeChar c = octets := by
  unfold utf8Char at h
  split at h
  · split at h
    next same =>
      cases h
      exact same
    · cases h
  · cases h

/-- The first octet of a character tells how many it has. -/
theorem sequenceLength_encodeChar {c : Char} {octet : UInt8} {rest : List UInt8}
    (h : String.utf8EncodeChar c = octet :: rest) : sequenceLength octet.toNat = some (rest.length + 1) := by
  have valid : c.toNat < 0xD800 ∨ 0xDFFF < c.toNat ∧ c.toNat < 0x110000 := c.valid
  have value : c.val.toNat = c.toNat := rfl
  unfold String.utf8EncodeChar at h
  simp only [value] at h
  generalize c.toNat = v at valid h
  split at h
  · cases h
    rw [octet_toNat (by omega), sequenceLength, if_pos (by omega)]
    rfl
  split at h
  · cases h
    rw [octet_toNat (by omega), sequenceLength, if_neg (by omega), if_neg (by omega), if_pos (by omega)]
    rfl
  split at h
  · cases h
    rw [octet_toNat (by omega), sequenceLength, if_neg (by omega), if_neg (by omega), if_neg (by omega),
      if_pos (by omega)]
    rfl
  · cases h
    rw [octet_toNat (by omega), sequenceLength, if_neg (by omega), if_neg (by omega), if_neg (by omega),
      if_neg (by omega), if_pos (by omega)]
    rfl

theorem encodeChar_single {c : Char} {octet : UInt8} (h : String.utf8EncodeChar c = [octet]) :
    utf16 c = [octet.toUInt16] := by
  have small : c.toNat < 128 := by
    have length := sequenceLength_encodeChar h
    have mem : octet ∈ String.utf8EncodeChar c := h ▸ List.mem_cons_self
    unfold sequenceLength at length
    split at length
    next low => exact (mem_encodeChar mem low).2
    all_goals (repeat' split at length) <;> cases length
  have same := h
  rw [encode_ascii small] at same
  obtain rfl := List.cons.inj same |>.1
  rw [utf16, if_pos (by omega), List.cons.injEq]
  refine ⟨UInt16.toNat_inj.mp ?_, rfl⟩
  rw [UInt8.toNat_toUInt16, octet_toNat (by omega), Nat.toUInt16_eq, UInt16.toNat_ofNat']
  omega

theorem single_encodeChar {octet : UInt8} (small : octet.toNat < 128) :
    String.utf8EncodeChar (Char.ofNat octet.toNat) = [octet] := by
  have value : (Char.ofNat octet.toNat).toNat = octet.toNat := toNat_ofNat (.inl (by omega))
  rw [encode_ascii (by omega), value, UInt8.ofNat_toNat]

theorem decodeWith_kept {u : UInt16} (plain : u ≠ unit '%') (s : JsString) :
    decodeWith [] 0 (u :: s) = (decodeWith [] 0 s).map (u :: ·) := by
  conv_lhs => unfold decodeWith
  exact if_neg plain

theorem decodeWith_pending {octets : List UInt8} {needed : Nat} {s t : JsString}
    (h : decodeWith octets (needed + 1) s = some t) :
    ∃ x more c s' t', Escapes x more ∧ String.utf8EncodeChar c = octets ++ more ∧ s = x ++ s' ∧ t = utf16 c ++ t' ∧
      decodeWith [] 0 s' = some t' := by
  induction needed generalizing octets s with
  | zero =>
    unfold decodeWith at h
    split at h
    · cases h
    split at h
    next percent_ =>
      split at h
      next a b rest =>
        split at h
        · cases h
        next octet digits =>
          obtain ⟨c, char, h⟩ := Option.bind_eq_some_iff.mp h
          obtain ⟨t', read, rfl⟩ := Option.map_eq_some_iff.mp h
          refine ⟨_, [octet], c, rest, t', .cons digits .nil, utf8Char_some char, ?_, rfl, read⟩
          rw [percent_]
          rfl
      · cases h
    · cases h
  | succ needed ih =>
    unfold decodeWith at h
    split at h
    · cases h
    split at h
    next percent_ =>
      split at h
      next a b rest =>
        split at h
        · cases h
        next octet digits =>
          obtain ⟨x, more, c, s', t', escapes, char, rfl, rfl, read⟩ := ih h
          refine ⟨_, octet :: more, c, s', t', .cons digits escapes, ?_, ?_, rfl, read⟩
          · rw [char, List.append_assoc]
            rfl
          · rw [percent_]
            rfl
      · cases h
    · cases h

theorem decodeWith_escapes {x : JsString} {octets more : List UInt8} {c : Char} (escapes : Escapes x more)
    (some_ : more ≠ []) (char : String.utf8EncodeChar c = octets ++ more) (s : JsString) :
    decodeWith octets more.length (x ++ s) = (decodeWith [] 0 s).map (utf16 c ++ ·) := by
  induction escapes generalizing octets with
  | nil => exact absurd rfl some_
  | @cons a b octet x more digits rest ih =>
    rw [List.cons_append, List.cons_append, List.cons_append, decodeWith, if_pos rfl]
    simp only [digits]
    cases more with
    | nil =>
      cases rest
      show (utf8Char (octets ++ [octet])).bind _ = _
      rw [← char, utf8Char_encodeChar]
      rfl
    | cons next more =>
      have appended : String.utf8EncodeChar c = (octets ++ [octet]) ++ next :: more := by rw [char, List.append_cons]
      exact ih (List.cons_ne_nil _ _) appended

theorem decodeWith_char {x : JsString} {c : Char} (escapes : Escapes x (String.utf8EncodeChar c)) (s : JsString) :
    decodeWith [] 0 (x ++ s) = (decodeWith [] 0 s).map (utf16 c ++ ·) := by
  generalize octets : String.utf8EncodeChar c = all at escapes
  cases escapes with
  | nil => exact absurd octets String.utf8EncodeChar_ne_nil
  | @cons a b octet x more digits rest =>
    rw [List.cons_append, List.cons_append, List.cons_append, decodeWith, if_pos rfl]
    simp only [digits, sequenceLength_encodeChar octets]
    cases more with
    | nil =>
      cases rest
      rw [encodeChar_single octets]
      rfl
    | cons next more => exact decodeWith_escapes rest (List.cons_ne_nil _ _) octets s

theorem decodeURIComponent_iff {s t : JsString} : decodeURIComponent s = some t ↔ Decodes s t := by
  constructor
  · intro h
    rw [decodeURIComponent] at h
    generalize length : s.length = n
    induction n using Nat.strong_induction_on generalizing s t with
    | h n ih =>
      unfold decodeWith at h
      split at h
      · cases h
        exact .nil
      next u rest =>
        split at h
        next percent_ =>
          split at h
          next a b rest =>
            split at h
            · cases h
            next octet digits =>
              simp only at h
              split at h
              · cases h
              next one =>
                obtain ⟨t', read, rfl⟩ := Option.map_eq_some_iff.mp h
                have small : octet.toNat < 128 := by
                  unfold sequenceLength at one
                  split at one
                  · assumption
                  all_goals (repeat' split at one) <;> cases one
                have char := single_encodeChar small
                have escapes : Escapes [unit '%', a, b] (String.utf8EncodeChar (Char.ofNat octet.toNat)) := by
                  rw [char]
                  exact .cons digits .nil
                have whole := Decodes.escaped escapes (ih _ (by simp only [← length, List.length_cons]; omega) read rfl)
                rw [encodeChar_single char] at whole
                rw [percent_]
                exact whole
              next m more found =>
                have several : m = m - 2 + 2 := by
                  unfold sequenceLength at found
                  split at found
                  · exact absurd (Option.some.inj found).symm more
                  (repeat' split at found) <;> cases found <;> rfl
                rw [several] at h
                obtain ⟨x, rest', c, s', t', escapes, char, rfl, rfl, read⟩ := decodeWith_pending h
                have whole : Escapes (unit '%' :: a :: b :: x) (String.utf8EncodeChar c) := by
                  rw [char]
                  exact .cons digits escapes
                rw [percent_]
                refine Decodes.escaped whole (ih _ ?_ read rfl)
                rw [← length]
                simp only [List.length_cons, List.length_append]
                omega
          · cases h
        next plain =>
          obtain ⟨t', read, rfl⟩ := Option.map_eq_some_iff.mp h
          exact .kept plain (ih _ (by rw [← length]; simp) read rfl)
  · intro h
    rw [decodeURIComponent]
    induction h with
    | nil => rfl
    | kept plain _ ih => rw [decodeWith_kept plain, ih]; rfl
    | escaped escapes _ ih => rw [decodeWith_char escapes, ih]; rfl

/-! ## Round trip -/

theorem escapes_percent (octets : List UInt8) : Escapes (octets.flatMap percent) octets := by
  have digit : ∀ n < 16, hexValue (unit (hexDigit n)).toNat = some n := by decide
  induction octets with
  | nil => exact .nil
  | cons octet octets ih =>
    have bound := octet.toNat_lt
    refine .cons ?_ ih
    rw [hexOctet, digit _ (by omega), digit _ (by omega)]
    have whole : octet.toNat / 16 * 16 + octet.toNat % 16 = octet.toNat := by omega
    show some (UInt8.ofNat (octet.toNat / 16 * 16 + octet.toNat % 16)) = some octet
    rw [whole, UInt8.ofNat_toNat]

theorem decodes_encodeChar (c : Char) {s t : JsString} (rest : Decodes s t) : Decodes (encodeChar c ++ s) (utf16 c ++ t) := by
  rw [encodeChar]
  split
  next kept =>
    have small := unreserved_lt kept
    rw [utf16, if_pos (by omega)]
    exact .kept (percent_sign_reserved kept) rest
  · exact .escaped (escapes_percent _) rest

theorem decodeURIComponent_encodeURIComponent {s e : JsString} (h : encodeURIComponent s = some e) :
    decodeURIComponent e = some s := by
  obtain ⟨cs, points, rfl⟩ := Option.map_eq_some_iff.mp h
  rw [decodeURIComponent_iff, ← utf16_codePoints points]
  clear points h
  induction cs with
  | nil => exact .nil
  | cons c cs ih => exact decodes_encodeChar c ih

end Fluo.Js
