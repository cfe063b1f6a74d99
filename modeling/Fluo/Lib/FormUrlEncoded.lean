import Fluo.Lib.UriComponent

/-!
# URLSearchParams

The parser of `application/x-www-form-urlencoded` texts of the URL Standard. It
works on the octets of the text, so an unpaired surrogate is read as U+FFFD, and
octets that are no UTF-8 are too.
-/

namespace Fluo.Js

open Utf8 Code

def isPlain (u : UInt16) : Bool := !isHighSurrogate u && !isLowSurrogate u

def single (u : UInt16) : Char := if isPlain u then Char.ofNat u.toNat else replacement

/-- The characters of a string, with U+FFFD for each unpaired surrogate. -/
def scalars : JsString → List Char
  | [] => []
  | [u] => [single u]
  | u :: v :: rest =>
    if isHighSurrogate u && isLowSurrogate v then pairValue u v :: scalars rest else single u :: scalars (v :: rest)

def percentDecode : List UInt8 → List UInt8
  | [] => []
  | [x] => [x]
  | [x, y] => [x, y]
  | x :: a :: b :: rest =>
    if x = 0x25 then
      match hexOctet a.toNat b.toNat with
      | some octet => octet :: percentDecode rest
      | none => x :: percentDecode (a :: b :: rest)
    else x :: percentDecode (a :: b :: rest)

def plusToSpace (octets : List UInt8) : List UInt8 := octets.map fun octet => if octet = 0x2B then 0x20 else octet

/-- The string that a name or a value stands for. -/
def formDecode (octets : List UInt8) : JsString := (decode (percentDecode (plusToSpace octets))).flatMap utf16

/-- A name and a value, which are parted by the first equals sign. -/
def formPair (sequence : List UInt8) : JsString × JsString :=
  (formDecode (sequence.takeWhile (· ≠ 0x3D)), formDecode ((sequence.dropWhile (· ≠ 0x3D)).drop 1))

def formPairs (octets : List UInt8) : List (JsString × JsString) := (words 0x26 octets).map formPair

/-- The entries of `new URLSearchParams(init)`. A leading question mark is no part
of the list. -/
def urlSearchParams (init : JsString) : List (JsString × JsString) :=
  match scalars init with
  | [] => []
  | c :: cs => formPairs (encode (if c = '?' then cs else c :: cs))

/-! ## Characters of a string -/

theorem isPlain_false {u : UInt16} (h : isPlain u = true) : isHighSurrogate u = false ∧ isLowSurrogate u = false := by
  simpa [isPlain] using h

theorem scalars_cons {u : UInt16} (h : isHighSurrogate u = false) (s : JsString) : scalars (u :: s) = single u :: scalars s := by
  cases s with
  | nil => rfl
  | cons v rest => rw [scalars, h, Bool.false_and, if_neg Bool.false_ne_true]

theorem scalars_of_codePoints {s : JsString} {cs : List Char} (h : codePoints s = some cs) : scalars s = cs := by
  fun_induction codePoints s generalizing cs with
  | case1 => cases h; rfl
  | case2 | case4 | case5 => cases h
  | case3 u high v rest low ih =>
    obtain ⟨tail, eq, rfl⟩ := Option.map_eq_some_iff.mp h
    rw [scalars, high, low, Bool.true_and, if_pos rfl, ih eq]
  | case6 u rest high low ih =>
    obtain ⟨tail, eq, rfl⟩ := Option.map_eq_some_iff.mp h
    have plain : isPlain u = true := by simp [isPlain, high, low]
    rw [scalars_cons (Bool.not_eq_true _ ▸ high), single, if_pos plain, ih eq]

/-- The characters before and after a unit that is no surrogate are read apart. -/
theorem scalars_append {u : UInt16} (h : isPlain u = true) (x y : JsString) :
    scalars (x ++ u :: y) = scalars x ++ scalars (u :: y) := by
  obtain ⟨-, low⟩ := isPlain_false h
  fun_induction scalars x with
  | case1 => rfl
  | case2 v => rw [List.singleton_append, scalars, low, Bool.and_false, if_neg Bool.false_ne_true]; rfl
  | case3 v w rest pair ih =>
    rw [List.cons_append, List.cons_append, scalars, if_pos pair, ih]
    rfl
  | case4 v w rest apart ih =>
    rw [List.cons_append, List.cons_append, scalars, if_neg apart, ← List.cons_append, ih]
    rfl

theorem codePoints_plain {u : UInt16} (h : isPlain u = true) (s : JsString) :
    codePoints (u :: s) = (codePoints s).map (Char.ofNat u.toNat :: ·) := by
  obtain ⟨high, low⟩ := isPlain_false h
  conv_lhs => unfold codePoints
  rw [high, low]
  rfl

theorem ofNat_toUInt16 {n : Nat} (h : n < 0x10000) : n.toUInt16.toNat = n := by
  rw [Nat.toUInt16_eq, UInt16.toNat_ofNat']
  exact Nat.mod_eq_of_lt h

theorem codePoints_utf16 (c : Char) (s : JsString) : codePoints (utf16 c ++ s) = (codePoints s).map (c :: ·) := by
  have valid : c.toNat < 0xD800 ∨ 0xDFFF < c.toNat ∧ c.toNat < 0x110000 := c.valid
  rw [utf16]
  split
  next first =>
    have value : c.toNat.toUInt16.toNat = c.toNat := ofNat_toUInt16 first
    have plain : isPlain c.toNat.toUInt16 = true := by
      simp only [isPlain, isHighSurrogate, isLowSurrogate, value, Bool.and_eq_true, Bool.not_eq_true',
        Bool.and_eq_false_iff, decide_eq_false_iff_not]
      omega
    rw [List.singleton_append, codePoints_plain plain, value, Char.ofNat_toNat]
  next beyond =>
    have hi : (0xD800 + (c.toNat - 0x10000) / 0x400).toUInt16.toNat = 0xD800 + (c.toNat - 0x10000) / 0x400 :=
      ofNat_toUInt16 (by omega)
    have lo : (0xDC00 + (c.toNat - 0x10000) % 0x400).toUInt16.toNat = 0xDC00 + (c.toNat - 0x10000) % 0x400 :=
      ofNat_toUInt16 (by omega)
    have high : isHighSurrogate (0xD800 + (c.toNat - 0x10000) / 0x400).toUInt16 = true := by
      simp only [isHighSurrogate, hi, Bool.and_eq_true, decide_eq_true_eq]
      omega
    have low : isLowSurrogate (0xDC00 + (c.toNat - 0x10000) % 0x400).toUInt16 = true := by
      simp only [isLowSurrogate, lo, Bool.and_eq_true, decide_eq_true_eq]
      omega
    have pair : pairValue (0xD800 + (c.toNat - 0x10000) / 0x400).toUInt16
        (0xDC00 + (c.toNat - 0x10000) % 0x400).toUInt16 = c := by
      rw [pairValue, hi, lo]
      have whole : 0x10000 + (0xD800 + (c.toNat - 0x10000) / 0x400 - 0xD800) * 0x400 +
          (0xDC00 + (c.toNat - 0x10000) % 0x400 - 0xDC00) = c.toNat := by omega
      rw [whole, Char.ofNat_toNat]
    rw [List.cons_append, List.singleton_append]
    conv_lhs => unfold codePoints
    simp only [high, low, if_true, pair]

theorem codePoints_flatMap_utf16 (cs : List Char) : codePoints (cs.flatMap utf16) = some cs := by
  induction cs with
  | nil => rfl
  | cons c cs ih =>
    rw [List.flatMap_cons, codePoints_utf16, ih]
    rfl

/-! ## Octets of a string -/

def ofUnit (u : UInt16) : Char := Char.ofNat u.toNat

def octetsOf (s : JsString) : List UInt8 := encode (scalars s)

theorem isPlain_small {u : UInt16} (small : u.toNat < 128) : isPlain u = true := by
  simp only [isPlain, isHighSurrogate, isLowSurrogate, Bool.and_eq_true, Bool.not_eq_true', Bool.and_eq_false_iff,
    decide_eq_false_iff_not]
  omega

theorem ofUnit_toNat {u : UInt16} (small : u.toNat < 128) : (ofUnit u).toNat = u.toNat := toNat_ofNat (.inl (by omega))

theorem encode_ofUnit {u : UInt16} (small : u.toNat < 128) : String.utf8EncodeChar (ofUnit u) = [u.toUInt8] := by
  rw [encode_ascii (by rw [ofUnit_toNat small]; exact small), ofUnit_toNat small]
  refine congrArg (· :: []) (UInt8.toNat_inj.mp ?_)
  rw [octet_toNat (by omega), UInt16.toNat_toUInt8]
  omega

theorem toUInt8_toNat {u : UInt16} (small : u.toNat < 128) : u.toUInt8.toNat = u.toNat := by
  rw [UInt16.toNat_toUInt8]
  omega

theorem octetsOf_append {u : UInt16} (small : u.toNat < 128) (x y : JsString) :
    octetsOf (x ++ u :: y) = octetsOf x ++ u.toUInt8 :: octetsOf y := by
  rw [octetsOf, scalars_append (isPlain_small small), scalars_cons (isPlain_false (isPlain_small small)).1, single,
    if_pos (isPlain_small small), encode_append]
  exact congrArg (octetsOf x ++ ·) (congrArg (· ++ octetsOf y) (encode_ofUnit small))

theorem single_small {u : UInt16} {c : Char} (same : single u = c) (small : c.toNat < 128) : u.toNat = c.toNat := by
  rw [single] at same
  split at same
  next plain =>
    obtain ⟨high, low⟩ := isPlain_false plain
    simp only [isHighSurrogate, isLowSurrogate, Bool.and_eq_false_iff, decide_eq_false_iff_not] at high low
    have bound := u.toNat_lt
    rw [← same, toNat_ofNat (by omega)]
  · rw [← same] at small
    exact absurd small (by decide)

theorem pairValue_large {u v : UInt16} (h : isHighSurrogate u && isLowSurrogate v) : 128 ≤ (pairValue u v).toNat := by
  have high := (Bool.and_eq_true_iff.mp h).1
  have low := (Bool.and_eq_true_iff.mp h).2
  simp only [isHighSurrogate, isLowSurrogate, Bool.and_eq_true, decide_eq_true_eq] at high low
  have value := toNat_ofNat (n := 0x10000 + (u.toNat - 0xD800) * 0x400 + (v.toNat - 0xDC00)) (by omega)
  rw [pairValue, value]
  omega

theorem mem_scalars {s : JsString} {c : Char} (mem : c ∈ scalars s) (small : c.toNat < 128) :
    ∃ u ∈ s, u.toNat = c.toNat := by
  fun_induction scalars s with
  | case1 => cases mem
  | case2 u => exact ⟨u, List.mem_cons_self, single_small (List.mem_singleton.mp mem).symm small⟩
  | case3 u v rest pair ih =>
    rcases List.mem_cons.mp mem with same | mem
    · rw [same] at small
      have large := pairValue_large pair
      omega
    · obtain ⟨w, mem, same⟩ := ih mem
      exact ⟨w, List.mem_cons_of_mem _ (List.mem_cons_of_mem _ mem), same⟩
  | case4 u v rest apart ih =>
    rcases List.mem_cons.mp mem with same | mem
    · exact ⟨u, List.mem_cons_self, single_small same.symm small⟩
    · obtain ⟨w, mem, same⟩ := ih mem
      exact ⟨w, List.mem_cons_of_mem _ mem, same⟩

theorem scalars_head {u : UInt16} {s : JsString} {c : Char} {cs : List Char} (h : scalars (u :: s) = c :: cs)
    (small : c.toNat < 128) : u.toNat = c.toNat := by
  cases s with
  | nil => exact single_small (List.cons.inj h).1 small
  | cons v rest =>
    rw [scalars] at h
    split at h
    next pair =>
      rw [← (List.cons.inj h).1] at small
      have large := pairValue_large pair
      omega
    · exact single_small (List.cons.inj h).1 small

theorem not_mem_octetsOf {u : UInt16} (small : u.toNat < 128) {x : JsString} (free : u ∉ x) : u.toUInt8 ∉ octetsOf x := by
  intro mem
  obtain ⟨c, inText, inOctets⟩ := List.mem_flatMap.mp mem
  obtain ⟨same, ascii⟩ := mem_encodeChar inOctets (by rw [toUInt8_toNat small]; exact small)
  obtain ⟨v, inString, value⟩ := mem_scalars inText ascii
  have unit_ : u.toUInt8.toNat = c.toNat := by rw [same, octet_toNat (by omega)]
  rw [toUInt8_toNat small] at unit_
  have eq : v = u := UInt16.toNat_inj.mp (by omega)
  exact free (eq ▸ inString)

theorem scalars_eq_nil {s : JsString} (h : scalars s = []) : s = [] := by
  fun_cases scalars s with
  | case1 => rfl
  | case2 => cases h
  | case3 u v rest pair =>
    rw [scalars, if_pos pair] at h
    cases h
  | case4 u v rest apart =>
    rw [scalars, if_neg apart] at h
    cases h

theorem octetsOf_eq_nil {s : JsString} : octetsOf s = [] ↔ s = [] := by
  refine ⟨fun h => scalars_eq_nil ?_, fun h => h ▸ rfl⟩
  cases chars : scalars s with
  | nil => rfl
  | cons c cs =>
    rw [octetsOf, chars, encode, List.flatMap_cons, List.append_eq_nil_iff] at h
    exact absurd h.1 String.utf8EncodeChar_ne_nil

/-! ## Sequences -/

theorem octetsOf_join {u : UInt16} (small : u.toNat < 128) (l : List JsString) :
    octetsOf (join u l) = join u.toUInt8 (l.map octetsOf) := by
  induction l with
  | nil => rfl
  | cons x l ih =>
    cases l with
    | nil => rfl
    | cons y l =>
      rw [join_cons_cons, octetsOf_append small, ih, List.map_cons, List.map_cons]
      rfl

/-- The octets of a string are split where the string is. -/
theorem words_octetsOf {u : UInt16} (small : u.toNat < 128) (s : JsString) :
    words u.toUInt8 (octetsOf s) = (words u s).map octetsOf := by
  have pieces : (octetsOf s).splitOn u.toUInt8 = (s.splitOn u).map octetsOf := by
    have whole : join u (s.splitOn u) = s := join_splitOn s
    conv_lhs => rw [← whole, octetsOf_join small]
    refine splitOn_join (by simp [List.splitOn_ne_nil]) fun x mem => ?_
    obtain ⟨piece, inPieces, rfl⟩ := List.mem_map.mp mem
    exact not_mem_octetsOf small (not_mem_of_mem_splitOn inPieces)
  rw [words, words, pieces, List.filter_map]
  refine congrArg (List.map octetsOf) (List.filter_congr fun x _ => ?_)
  exact decide_eq_decide.mpr (not_congr octetsOf_eq_nil)

/-- A name and a value, before they are decoded. -/
def entryParts (entry : JsString) : JsString × JsString :=
  (entry.takeWhile (· ≠ unit '='), (entry.dropWhile (· ≠ unit '=')).drop 1)

def formComponent (s : JsString) : JsString := formDecode (octetsOf s)

theorem octetsOf_takeWhile {u : UInt16} (small : u.toNat < 128) (s : JsString) :
    (octetsOf s).takeWhile (· ≠ u.toUInt8) = octetsOf (s.takeWhile (· ≠ u)) ∧
      ((octetsOf s).dropWhile (· ≠ u.toUInt8)).drop 1 = octetsOf ((s.dropWhile (· ≠ u)).drop 1) := by
  have kept : ∀ x ∈ octetsOf (s.takeWhile (· ≠ u)), decide (x ≠ u.toUInt8) = true := by
    intro x mem
    refine decide_eq_true fun same => not_mem_octetsOf small (not_mem_takeWhile u s) ?_
    rwa [same] at mem
  by_cases mem : u ∈ s
  · have octets : octetsOf s = octetsOf (s.takeWhile (· ≠ u)) ++ u.toUInt8 :: octetsOf ((s.dropWhile (· ≠ u)).drop 1) := by
      rw [← octetsOf_append small, takeWhile_cut mem]
    rw [octets, List.takeWhile_append_of_pos kept, List.dropWhile_append_of_pos kept,
      List.takeWhile_cons_of_neg (by simp), List.dropWhile_cons_of_neg (by simp), List.append_nil]
    exact ⟨rfl, rfl⟩
  · have all : ∀ x ∈ s, decide (x ≠ u) = true := by
      intro x inText
      refine decide_eq_true fun same => mem ?_
      rwa [same] at inText
    rw [List.takeWhile_eq_self_iff.mpr all] at kept ⊢
    rw [List.dropWhile_eq_nil_iff.mpr all, List.takeWhile_eq_self_iff.mpr kept, List.dropWhile_eq_nil_iff.mpr kept]
    exact ⟨rfl, rfl⟩

def listOf (s : JsString) : JsString :=
  match s with
  | [] => []
  | u :: rest => if u = unit '?' then rest else u :: rest

/-- The entries of a text are those of its parts between ampersands, each decoded
for itself. -/
theorem urlSearchParams_eq (s : JsString) :
    urlSearchParams s =
      (words (unit '&') (listOf s)).map fun entry =>
        (formComponent (entryParts entry).1, formComponent (entryParts entry).2) := by
  have pairs (list : JsString) : formPairs (octetsOf list) =
      (words (unit '&') list).map fun entry =>
        (formComponent (entryParts entry).1, formComponent (entryParts entry).2) := by
    rw [formPairs, show (0x26 : UInt8) = (unit '&').toUInt8 from rfl, words_octetsOf (by decide), List.map_map]
    refine List.map_congr_left fun entry _ => ?_
    have parts := octetsOf_takeWhile (u := unit '=') (by decide) entry
    rw [Function.comp, formPair, show (0x3D : UInt8) = (unit '=').toUInt8 from rfl, parts.1, parts.2]
    rfl
  cases s with
  | nil => simp [urlSearchParams, scalars, listOf]
  | cons u rest =>
    rw [urlSearchParams, listOf]
    by_cases question : u = unit '?'
    · have head : scalars (u :: rest) = '?' :: scalars rest := by
        rw [question, scalars_cons rfl]
        rfl
      rw [head, if_pos question]
      exact pairs rest
    · rw [if_neg question, ← pairs]
      cases chars : scalars (u :: rest) with
      | nil => exact absurd (scalars_eq_nil chars) (List.cons_ne_nil _ _)
      | cons c cs =>
        have other : c ≠ '?' := by
          rintro rfl
          exact question (UInt16.toNat_inj.mp (scalars_head chars (by decide)))
        rw [octetsOf, chars]
        exact congrArg (fun l => formPairs (encode l)) (if_neg other)

/-! ## Agreement with decodeURIComponent -/

theorem percentDecode_cons {x : UInt8} (h : x ≠ 0x25) (rest : List UInt8) :
    percentDecode (x :: rest) = x :: percentDecode rest := by
  match rest with
  | [] => rfl
  | [y] => rfl
  | a :: b :: rest => rw [percentDecode, if_neg h]

theorem percentDecode_keeps {l : List UInt8} (h : ∀ x ∈ l, x ≠ 0x25) (rest : List UInt8) :
    percentDecode (l ++ rest) = l ++ percentDecode rest := by
  induction l with
  | nil => rfl
  | cons x l ih =>
    rw [List.cons_append, percentDecode_cons (h x List.mem_cons_self), ih fun y mem => h y (List.mem_cons_of_mem _ mem)]
    rfl

theorem percentDecode_encodeChar {c : Char} (h : c ≠ '%') (rest : List UInt8) :
    percentDecode (String.utf8EncodeChar c ++ rest) = String.utf8EncodeChar c ++ percentDecode rest := by
  refine percentDecode_keeps (fun x mem same => h ?_) rest
  obtain ⟨octet, small⟩ := mem_encodeChar mem (by rw [same]; decide)
  have value := congrArg UInt8.toNat octet
  rw [octet_toNat (by omega), same] at value
  exact Char.toNat_inj.mp value.symm

theorem percentDecode_escapes {x : JsString} {octets : List UInt8} (h : Escapes x octets) (rest : List UInt8) :
    percentDecode (encode (x.map ofUnit) ++ rest) = octets ++ percentDecode rest := by
  induction h with
  | nil => rfl
  | @cons a b octet x octets digits _ ih =>
    obtain ⟨smallA, smallB⟩ := hexOctet_some digits
    have head : encode ((unit '%' :: a :: b :: x).map ofUnit) = 0x25 :: a.toUInt8 :: b.toUInt8 :: encode (x.map ofUnit) := by
      rw [encode, List.map_cons, List.map_cons, List.map_cons, List.flatMap_cons, List.flatMap_cons, List.flatMap_cons,
        encode_ofUnit (by decide), encode_ofUnit smallA, encode_ofUnit smallB]
      rfl
    rw [head, List.cons_append, List.cons_append, List.cons_append, percentDecode, if_pos rfl, toUInt8_toNat smallA,
      toUInt8_toNat smallB, digits]
    exact congrArg (octet :: ·) ih

theorem codePoints_escapes {x : JsString} {octets : List UInt8} (h : Escapes x octets) (s : JsString) :
    codePoints (x ++ s) = (codePoints s).map (x.map ofUnit ++ ·) := by
  induction h with
  | nil => simp
  | @cons a b octet x octets digits _ ih =>
    obtain ⟨smallA, smallB⟩ := hexOctet_some digits
    rw [List.cons_append, List.cons_append, List.cons_append, codePoints_plain (by decide),
      codePoints_plain (isPlain_small smallA), codePoints_plain (isPlain_small smallB), ih]
    simp only [Option.map_map]
    rfl

theorem escapes_head {x : JsString} {c : Char} (h : Escapes x (String.utf8EncodeChar c)) : ∃ rest, x = unit '%' :: rest := by
  generalize octets : String.utf8EncodeChar c = l at h
  cases h with
  | nil => exact absurd octets String.utf8EncodeChar_ne_nil
  | cons => exact ⟨_, rfl⟩

theorem decodes_kept {u : UInt16} {s t : JsString} (h : Decodes (u :: s) t) (plain : u ≠ unit '%') :
    ∃ t', t = u :: t' ∧ Decodes s t' := by
  generalize whole : u :: s = all at h
  cases h with
  | nil => cases whole
  | kept _ rest =>
    cases whole
    exact ⟨_, rfl, rest⟩
  | escaped escapes rest =>
    obtain ⟨x, rfl⟩ := escapes_head escapes
    exact absurd (List.cons.inj whole).1 plain

theorem utf16_head {c : Char} {v : UInt16} {t : JsString} (h : v :: t = utf16 c) : isLowSurrogate v = false := by
  have points := codePoints_utf16 c []
  rw [List.append_nil, ← h] at points
  cases low : isLowSurrogate v with
  | false => rfl
  | true =>
    have high : isHighSurrogate v = false := by
      simp only [isLowSurrogate, isHighSurrogate, Bool.and_eq_true, decide_eq_true_eq, Bool.and_eq_false_iff,
        decide_eq_false_iff_not] at low ⊢
      omega
    unfold codePoints at points
    simp [high, low] at points

theorem decodes_low {v : UInt16} {s t : JsString} (h : Decodes s (v :: t)) (low : isLowSurrogate v = true) :
    ∃ s', s = v :: s' ∧ Decodes s' t := by
  generalize whole : v :: t = all at h
  cases h with
  | nil => cases whole
  | kept _ rest =>
    cases whole
    exact ⟨_, rfl, rest⟩
  | @escaped c x s t' escapes rest =>
    cases units : utf16 c with
    | nil =>
      rw [utf16] at units
      split at units <;> cases units
    | cons w tail =>
      rw [units, List.cons_append] at whole
      rw [(List.cons.inj whole).1, utf16_head units.symm] at low
      cases low

theorem isLowSurrogate_ne {u : UInt16} (h : isLowSurrogate u = true) : u ≠ unit '%' := by
  rintro rfl
  cases h

/-- On strings without unpaired surrogates, the octets are those of the decoded
string. -/
theorem percentDecode_decodes {s t : JsString} {cs : List Char} (h : Decodes s t) (points : codePoints s = some cs) :
    ∃ ct, codePoints t = some ct ∧ percentDecode (encode cs) = encode ct := by
  generalize length : s.length = n
  induction n using Nat.strong_induction_on generalizing s t cs with
  | h n ih =>
    cases h with
    | nil =>
      cases points
      exact ⟨[], rfl, rfl⟩
    | @kept u s t plain rest =>
      unfold codePoints at points
      split at points
      next high =>
        split at points
        · cases points
        next v s =>
          split at points
          next low =>
            obtain ⟨cs, tail, rfl⟩ := Option.map_eq_some_iff.mp points
            obtain ⟨t, rfl, after⟩ := decodes_kept rest (isLowSurrogate_ne low)
            obtain ⟨ct, read, same⟩ := ih _ (by simp only [← length, List.length_cons]; omega) after tail rfl
            have other : pairValue u v ≠ '%' := fun eq => by
              have large := pairValue_large (u := u) (v := v) (by rw [high, low]; rfl)
              rw [eq] at large
              exact absurd large (by decide)
            refine ⟨pairValue u v :: ct, ?_, ?_⟩
            · rw [codePoints, if_pos high]
              simp only [low, if_true, read]
              rfl
            · rw [encode_cons, encode_cons, percentDecode_encodeChar other, same]
          · cases points
      next high =>
        split at points
        · cases points
        next low =>
          obtain ⟨cs, tail, rfl⟩ := Option.map_eq_some_iff.mp points
          obtain ⟨ct, read, same⟩ := ih _ (by simp only [← length, List.length_cons]; omega) rest tail rfl
          have isPlain_ : isPlain u = true := by simp [isPlain, high, low]
          have other : Char.ofNat u.toNat ≠ '%' := fun eq => by
            have value := single_small (u := u) (c := '%') (by rw [single, if_pos isPlain_, eq]) (by decide)
            exact plain (UInt16.toNat_inj.mp value)
          refine ⟨Char.ofNat u.toNat :: ct, ?_, ?_⟩
          · rw [codePoints_plain isPlain_, read]
            rfl
          · rw [encode_cons, encode_cons, percentDecode_encodeChar other, same]
    | @escaped c x s t escapes rest =>
      rw [codePoints_escapes escapes] at points
      obtain ⟨cs, tail, rfl⟩ := Option.map_eq_some_iff.mp points
      obtain ⟨y, begins⟩ := escapes_head escapes
      have shorter : s.length < n := by
        rw [← length, List.length_append, begins]
        simp only [List.length_cons]
        omega
      obtain ⟨ct, read, same⟩ := ih _ shorter rest tail rfl
      refine ⟨c :: ct, by rw [codePoints_utf16, read]; rfl, ?_⟩
      rw [encode_append, encode_cons, percentDecode_escapes escapes, same]

theorem decodes_codePoints {s t : JsString} {ct : List Char} (h : Decodes s t) (points : codePoints t = some ct) :
    ∃ cs, codePoints s = some cs := by
  generalize length : s.length = n
  induction n using Nat.strong_induction_on generalizing s t ct with
  | h n ih =>
    cases h with
    | nil => exact ⟨[], rfl⟩
    | @kept u s t plain rest =>
      unfold codePoints at points
      split at points
      next high =>
        split at points
        · cases points
        next v t =>
          split at points
          next low =>
            obtain ⟨ct, tail, rfl⟩ := Option.map_eq_some_iff.mp points
            obtain ⟨s, rfl, after⟩ := decodes_low rest low
            obtain ⟨cs, read⟩ := ih _ (by simp only [← length, List.length_cons]; omega) after tail rfl
            refine ⟨pairValue u v :: cs, ?_⟩
            rw [codePoints, if_pos high]
            simp only [low, if_true, read]
            rfl
          · cases points
      next high =>
        split at points
        · cases points
        next low =>
          obtain ⟨ct, tail, rfl⟩ := Option.map_eq_some_iff.mp points
          obtain ⟨cs, read⟩ := ih _ (by simp only [← length, List.length_cons]; omega) rest tail rfl
          exact ⟨_, by rw [codePoints_plain (by simp [isPlain, high, low]), read]; rfl⟩
    | @escaped c x s t escapes rest =>
      rw [codePoints_utf16] at points
      obtain ⟨ct, tail, rfl⟩ := Option.map_eq_some_iff.mp points
      obtain ⟨y, begins⟩ := escapes_head escapes
      have shorter : s.length < n := by
        rw [← length, List.length_append, begins]
        simp only [List.length_cons]
        omega
      obtain ⟨cs, read⟩ := ih _ shorter rest tail rfl
      exact ⟨_, by rw [codePoints_escapes escapes, read]; rfl⟩

def plusUnit (u : UInt16) : UInt16 := if u = unit '+' then unit ' ' else u

def plusChar (c : Char) : Char := if c = '+' then ' ' else c

theorem codePoints_plus (s : JsString) : codePoints (s.map plusUnit) = (codePoints s).map (List.map plusChar) := by
  have keeps {u : UInt16} (h : isPlain u = false) : plusUnit u = u := if_neg (by rintro rfl; cases h)
  have pairs {u v : UInt16} (high : isHighSurrogate u = true) (low : isLowSurrogate v = true) :
      plusChar (pairValue u v) = pairValue u v := by
    refine if_neg fun eq => ?_
    have large := pairValue_large (u := u) (v := v) (by rw [high, low]; rfl)
    rw [eq] at large
    exact absurd large (by decide)
  fun_induction codePoints s with
  | case1 => rfl
  | case2 u high =>
    rw [List.map_cons, keeps (by simp [isPlain, high])]
    simp [codePoints, high]
  | case3 u high v rest low ih =>
    rw [List.map_cons, List.map_cons, keeps (by simp [isPlain, high]), keeps (by simp [isPlain, low]), codePoints,
      if_pos high]
    simp only [low, if_true, ih, Option.map_map]
    refine congrArg (fun f => Option.map f (codePoints rest)) (funext fun cs => ?_)
    simp [pairs high low]
  | case4 u high v rest low =>
    have apart : isLowSurrogate (plusUnit v) = false := by
      rw [plusUnit]
      split
      · rfl
      · simpa using low
    rw [List.map_cons, List.map_cons, keeps (by simp [isPlain, high]), codePoints, if_pos high]
    simp [apart]
  | case5 u rest high low =>
    rw [List.map_cons, keeps (by simp [isPlain, low]), codePoints.eq_def]
    simp [high, low]
  | case6 u rest high low ih =>
    have plain : isPlain u = true := by simp [isPlain, high, low]
    rw [List.map_cons, plusUnit]
    split
    next plus =>
      rw [codePoints_plain (by decide), ih, plus]
      cases codePoints rest <;> rfl
    next other =>
      rw [codePoints_plain plain, ih]
      have kept : plusChar (Char.ofNat u.toNat) = Char.ofNat u.toNat := by
        refine if_neg fun eq => other ?_
        have value := single_small (u := u) (c := '+') (by rw [single, if_pos plain, eq]) (by decide)
        exact UInt16.toNat_inj.mp value
      simp only [Option.map_map]
      refine congrArg (fun f => Option.map f (codePoints rest)) (funext fun cs => ?_)
      simp [kept]

theorem plusToSpace_encode (cs : List Char) : plusToSpace (encode cs) = encode (cs.map plusChar) := by
  induction cs with
  | nil => rfl
  | cons c cs ih =>
    rw [encode_cons, plusToSpace, List.map_append, List.map_cons, encode_cons, ← ih]
    refine congrArg (· ++ plusToSpace (encode cs)) ?_
    by_cases plus : c = '+'
    · rw [plus]
      rfl
    · rw [plusChar, if_neg plus]
      refine (List.map_congr_left fun x mem => if_neg fun same => plus ?_).trans (List.map_id _)
      obtain ⟨octet, small⟩ := mem_encodeChar mem (by rw [same]; decide)
      have value := congrArg UInt8.toNat octet
      rw [octet_toNat (by omega), same] at value
      exact Char.toNat_inj.mp value.symm

/-- Where `decodeURIComponent` succeeds, it agrees with the standard exactly on the
strings without unpaired surrogates. -/
theorem formComponent_decodeURIComponent {s t : JsString} (h : decodeURIComponent (s.map plusUnit) = some t) :
    formComponent s = t ↔ (codePoints s).isSome = true := by
  have decodes := decodeURIComponent_iff.mp h
  constructor
  · rintro rfl
    obtain ⟨cs, points⟩ := decodes_codePoints decodes (codePoints_flatMap_utf16 _)
    rw [codePoints_plus] at points
    obtain ⟨ds, points, -⟩ := Option.map_eq_some_iff.mp points
    rw [points]
    rfl
  · intro some_
    obtain ⟨cs, points⟩ := Option.isSome_iff_exists.mp some_
    have plus : codePoints (s.map plusUnit) = some (cs.map plusChar) := by rw [codePoints_plus, points]; rfl
    obtain ⟨ct, read, same⟩ := percentDecode_decodes decodes plus
    rw [formComponent, octetsOf, scalars_of_codePoints points, formDecode, plusToSpace_encode, same, decode_encode,
      utf16_codePoints read]

theorem formComponent_codePoints (s : JsString) : (codePoints (formComponent s)).isSome = true := by
  rw [formComponent, formDecode, codePoints_flatMap_utf16]
  rfl

theorem formComponent_cons {u : UInt16} (small : u.toNat < 128) (percent_ : u ≠ unit '%') (plus : u ≠ unit '+')
    (s : JsString) : formComponent (u :: s) = u :: formComponent s := by
  have octets : octetsOf (u :: s) = u.toUInt8 :: octetsOf s := octetsOf_append small [] s
  have other {c : UInt16} (smallC : c.toNat < 128) (ne : u ≠ c) : u.toUInt8 ≠ c.toUInt8 := fun same => by
    have value := congrArg UInt8.toNat same
    rw [toUInt8_toNat small, toUInt8_toNat smallC] at value
    exact ne (UInt16.toNat_inj.mp value)
  have kept : plusToSpace (u.toUInt8 :: octetsOf s) = u.toUInt8 :: plusToSpace (octetsOf s) :=
    congrArg (· :: plusToSpace (octetsOf s)) (if_neg (other (by decide) plus))
  have char : decode (u.toUInt8 :: percentDecode (plusToSpace (octetsOf s))) =
      ofUnit u :: decode (percentDecode (plusToSpace (octetsOf s))) := by
    have read := decode_encodeChar (ofUnit u) (percentDecode (plusToSpace (octetsOf s)))
    rwa [encode_ofUnit small] at read
  rw [formComponent, octets, formDecode, kept, percentDecode_cons (other (by decide) percent_), char, List.flatMap_cons,
    ofUnit, utf16_ofNat (isPlain_false (isPlain_small small)).1 (isPlain_false (isPlain_small small)).2]
  rfl

end Fluo.Js
