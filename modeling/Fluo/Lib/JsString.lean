import Fluo.Lib.Code
import Mathlib.Algebra.GroupWithZero.Nat
import Mathlib.Data.List.TakeWhile

/-!
# JavaScript strings

A string is a sequence of UTF-16 code units, surrogates paired or not.
`encodeURIComponent` writes well formed strings and can be read back.
-/

namespace Fluo.Js

open Fluo.Code

abbrev JsString := List UInt16

instance : LawfulBEq JsString := inferInstance

def unit (c : Char) : UInt16 := c.toNat.toUInt16

/-- The code units of a text without characters beyond the first plane. -/
def text (s : String) : JsString := s.toList.map unit

/-- What holds of each member of a list is decided along the list. -/
theorem forall_members {α : Type} {p : α → Prop} [DecidablePred p] {l : List α}
    (all : l.all (fun a => decide (p a)) = true) : ∀ a ∈ l, p a :=
  fun a mem => of_decide_eq_true (List.all_eq_true.mp all a mem)

/-- A property key: a name, or a symbol with its description. -/
inductive PropertyKey where
  | named (name : JsString)
  | symbol (id : Nat) (description : JsString)
  deriving DecidableEq

/-- White space and line ends, which `trim` strips and `\s` matches. -/
def isWhiteSpace (u : UInt16) : Bool :=
  (9 ≤ u && u ≤ 13) || (0x2000 ≤ u && u ≤ 0x200A) ||
    u ∈ [32, 0xA0, 0x1680, 0x2028, 0x2029, 0x202F, 0x205F, 0x3000, 0xFEFF]

def trim (s : JsString) : JsString := ((s.dropWhile isWhiteSpace).reverse.dropWhile isWhiteSpace).reverse

theorem isWhiteSpace_visible {u : UInt16} (low : 33 ≤ u.toNat) (high : u.toNat ≤ 126) : isWhiteSpace u = false := by
  have other (v : UInt16) (far : v.toNat < 33 ∨ 126 < v.toNat) : u ≠ v := by
    rintro rfl
    omega
  simp only [isWhiteSpace, Bool.or_eq_false_iff, Bool.and_eq_false_iff, decide_eq_false_iff_not, List.mem_cons,
    List.not_mem_nil, or_false, not_or, UInt16.le_iff_toNat_le]
  refine ⟨⟨.inr ?_, .inl ?_⟩, other _ (by decide), other _ (by decide), other _ (by decide), other _ (by decide),
    other _ (by decide), other _ (by decide), other _ (by decide), other _ (by decide), other _ (by decide)⟩
  · show ¬ u.toNat ≤ 13
    omega
  · show ¬ 8192 ≤ u.toNat
    omega

def Blank (s : JsString) : Prop := ∀ u ∈ s, isWhiteSpace u = true

theorem trim_append_left {a : JsString} (blank : Blank a) (s : JsString) : trim (a ++ s) = trim s := by
  rw [trim, List.dropWhile_append_of_pos blank, trim]

theorem trim_append_right {b : JsString} (blank : Blank b) (s : JsString) : trim (s ++ b) = trim s := by
  have behind : ∀ u ∈ b.reverse, isWhiteSpace u = true := fun u mem => blank u (List.mem_reverse.mp mem)
  rw [trim, trim, List.dropWhile_append]
  split
  · next empty =>
    rw [List.isEmpty_iff.mp empty, List.dropWhile_eq_nil_iff.mpr blank]
  · rw [List.reverse_append, List.dropWhile_append_of_pos behind]

theorem exists_trim (s : JsString) : ∃ a b, Blank a ∧ Blank b ∧ s = a ++ trim s ++ b := by
  let rest := s.dropWhile isWhiteSpace
  refine ⟨s.takeWhile isWhiteSpace, (rest.reverse.takeWhile isWhiteSpace).reverse, fun u mem => List.mem_takeWhile_imp mem,
    fun u mem => List.mem_takeWhile_imp (List.mem_reverse.mp mem), ?_⟩
  have parts : trim s ++ (rest.reverse.takeWhile isWhiteSpace).reverse = rest := by
    rw [trim, ← List.reverse_append, List.takeWhile_append_dropWhile, List.reverse_reverse]
  rw [List.append_assoc, parts, List.takeWhile_append_dropWhile]

theorem trim_nil : trim [] = [] := rfl

theorem trim_eq_self {u v : UInt16} {front rest s : JsString} (starts : s = u :: rest) (mark : isWhiteSpace u = false)
    (ends : s = front ++ [v]) (mark' : isWhiteSpace v = false) : trim s = s := by
  rw [trim, starts, List.dropWhile_cons_of_neg (by rw [mark]; exact Bool.false_ne_true), ← starts, ends,
    List.reverse_append, List.reverse_singleton, List.singleton_append,
    List.dropWhile_cons_of_neg (by rw [mark']; exact Bool.false_ne_true), List.reverse_cons, List.reverse_reverse]

theorem trim_self {s : JsString} (h : ∀ u ∈ s, isWhiteSpace u = false) : trim s = s := by
  have keeps {t : JsString} (ht : ∀ u ∈ t, isWhiteSpace u = false) : t.dropWhile isWhiteSpace = t := by
    cases t with
    | nil => rfl
    | cons u t => exact List.dropWhile_cons_of_neg (by rw [ht u List.mem_cons_self]; decide)
  rw [trim, keeps h, keeps fun u mem => h u (List.mem_reverse.mp mem), List.reverse_reverse]

def indexOf (pattern : JsString) : JsString → Option Nat
  | [] => if pattern = [] then some 0 else none
  | u :: rest => if pattern.isPrefixOf (u :: rest) then some 0 else (indexOf pattern rest).map (· + 1)

def lastIndexOf (pattern : JsString) : JsString → Option Nat
  | [] => if pattern = [] then some 0 else none
  | u :: rest =>
    match lastIndexOf pattern rest with
    | some i => some (i + 1)
    | none => if pattern.isPrefixOf (u :: rest) then some 0 else none

theorem indexOf_some {pattern s : JsString} {i : Nat} (h : indexOf pattern s = some i) :
    ∃ x y, s = x ++ pattern ++ y ∧ x.length = i := by
  induction s generalizing i with
  | nil =>
    rw [indexOf] at h
    split at h
    · next empty =>
      obtain rfl := Option.some.inj h
      exact ⟨[], [], by rw [empty]; rfl, rfl⟩
    · cases h
  | cons u rest ih =>
    rw [indexOf] at h
    split at h
    · next starts =>
      obtain ⟨y, eq⟩ := List.isPrefixOf_iff_prefix.mp starts
      obtain rfl := Option.some.inj h
      exact ⟨[], y, eq.symm, rfl⟩
    · obtain ⟨j, found, rfl⟩ := Option.map_eq_some_iff.mp h
      obtain ⟨x, y, eq, rfl⟩ := ih found
      exact ⟨u :: x, y, by rw [eq]; rfl, rfl⟩

theorem indexOf_none {pattern s : JsString} (h : indexOf pattern s = none) (x y : JsString) : s ≠ x ++ pattern ++ y := by
  induction s generalizing x with
  | nil =>
    rw [indexOf] at h
    split at h
    · cases h
    · next some_ =>
      intro same
      have empty := List.append_eq_nil_iff.mp same.symm
      exact some_ (List.append_eq_nil_iff.mp empty.1).2
  | cons u rest ih =>
    rw [indexOf] at h
    split at h
    · cases h
    · next other =>
      intro same
      cases x with
      | nil => exact other (List.isPrefixOf_iff_prefix.mpr ⟨y, same.symm⟩)
      | cons v x =>
        rw [List.cons_append, List.cons_append, List.cons.injEq] at same
        exact ih (Option.map_eq_none_iff.mp h) x same.2

theorem lastIndexOf_some {pattern s : JsString} {i : Nat} (h : lastIndexOf pattern s = some i) :
    ∃ x y, s = x ++ pattern ++ y ∧ x.length = i := by
  induction s generalizing i with
  | nil =>
    rw [lastIndexOf] at h
    split at h
    · next empty =>
      obtain rfl := Option.some.inj h
      exact ⟨[], [], by rw [empty]; rfl, rfl⟩
    · cases h
  | cons u rest ih =>
    rw [lastIndexOf] at h
    split at h
    · next j found =>
      obtain rfl := Option.some.inj h
      obtain ⟨x, y, eq, rfl⟩ := ih found
      exact ⟨u :: x, y, by rw [eq]; rfl, rfl⟩
    · split at h
      · next starts =>
        obtain ⟨y, eq⟩ := List.isPrefixOf_iff_prefix.mp starts
        obtain rfl := Option.some.inj h
        exact ⟨[], y, eq.symm, rfl⟩
      · cases h

theorem lastIndexOf_none {pattern s : JsString} (h : lastIndexOf pattern s = none) (x y : JsString) :
    s ≠ x ++ pattern ++ y := by
  induction s generalizing x with
  | nil =>
    rw [lastIndexOf] at h
    split at h
    · cases h
    · next some_ =>
      intro same
      have empty := List.append_eq_nil_iff.mp same.symm
      exact some_ (List.append_eq_nil_iff.mp empty.1).2
  | cons u rest ih =>
    rw [lastIndexOf] at h
    split at h
    · cases h
    · next absent =>
      split at h
      · cases h
      · next other =>
        intro same
        cases x with
        | nil => exact other (List.isPrefixOf_iff_prefix.mpr ⟨y, same.symm⟩)
        | cons v x =>
          rw [List.cons_append, List.cons_append, List.cons.injEq] at same
          exact ih absent x same.2

theorem indexOf_unit (u : UInt16) (s : JsString) :
    indexOf [u] s = if u ∈ s then some (s.takeWhile (· ≠ u)).length else none := by
  induction s with
  | nil => rfl
  | cons v s ih =>
    rw [indexOf, ih]
    by_cases same : v = u
    · simp [same]
    · have other : u ≠ v := Ne.symm same
      by_cases mem : u ∈ s
      · simp [mem, same, other]
      · simp [mem, other]

/-- A string that has a unit is cut at the first one. -/
theorem takeWhile_cut {u : UInt16} {s : JsString} (mem : u ∈ s) :
    s.takeWhile (· ≠ u) ++ u :: (s.dropWhile (· ≠ u)).drop 1 = s := by
  induction s with
  | nil => cases mem
  | cons v s ih =>
    by_cases same : v = u
    · simp [same]
    · have rest : u ∈ s := (List.mem_cons.mp mem).resolve_left (Ne.symm same)
      have first := congrArg (v :: ·) (ih rest)
      simpa [same] using first

theorem not_mem_takeWhile (u : UInt16) (s : JsString) : u ∉ s.takeWhile (· ≠ u) := fun mem => by
  simpa using List.mem_takeWhile_imp mem

def isHighSurrogate (u : UInt16) : Bool := 0xD800 ≤ u.toNat && u.toNat < 0xDC00

def isLowSurrogate (u : UInt16) : Bool := 0xDC00 ≤ u.toNat && u.toNat < 0xE000

def pairValue (hi lo : UInt16) : Char :=
  Char.ofNat (0x10000 + (hi.toNat - 0xD800) * 0x400 + (lo.toNat - 0xDC00))

/-- The code points of a string, or nothing when a surrogate is unpaired. -/
def codePoints : JsString → Option (List Char)
  | [] => some []
  | u :: rest =>
    if isHighSurrogate u then
      match rest with
      | [] => none
      | v :: rest => if isLowSurrogate v then (codePoints rest).map (pairValue u v :: ·) else none
    else if isLowSurrogate u then none
    else (codePoints rest).map (Char.ofNat u.toNat :: ·)

def utf16 (c : Char) : JsString :=
  if c.toNat < 0x10000 then [c.toNat.toUInt16]
  else [(0xD800 + (c.toNat - 0x10000) / 0x400).toUInt16, (0xDC00 + (c.toNat - 0x10000) % 0x400).toUInt16]

theorem toNat_ofNat {n : Nat} (h : n < 0xD800 ∨ 0xDFFF < n ∧ n < 0x110000) : (Char.ofNat n).toNat = n := by
  have valid : n.isValidChar := h
  have built : Char.ofNat n = Char.ofNatAux n valid := dif_pos valid
  rw [built]
  rfl

theorem utf16_ofNat {u : UInt16} (high : isHighSurrogate u = false) (low : isLowSurrogate u = false) :
    utf16 (Char.ofNat u.toNat) = [u] := by
  have bound := u.toNat_lt
  simp only [isHighSurrogate, isLowSurrogate, Bool.and_eq_false_iff, decide_eq_false_iff_not] at high low
  have value := toNat_ofNat (n := u.toNat) (by omega)
  simp [utf16, value, bound]

theorem utf16_pairValue {u v : UInt16} (high : isHighSurrogate u) (low : isLowSurrogate v) :
    utf16 (pairValue u v) = [u, v] := by
  simp only [isHighSurrogate, isLowSurrogate, Bool.and_eq_true, decide_eq_true_eq] at high low
  have value := toNat_ofNat (n := 0x10000 + (u.toNat - 0xD800) * 0x400 + (v.toNat - 0xDC00)) (by omega)
  have hi : 0xD800 + (0x10000 + (u.toNat - 0xD800) * 0x400 + (v.toNat - 0xDC00) - 0x10000) / 0x400 = u.toNat := by
    omega
  have lo : 0xDC00 + (0x10000 + (u.toNat - 0xD800) * 0x400 + (v.toNat - 0xDC00) - 0x10000) % 0x400 = v.toNat := by
    omega
  rw [utf16, pairValue, value, if_neg (by omega), hi, lo]
  simp

theorem utf16_codePoints {s : JsString} {cs : List Char} (h : codePoints s = some cs) : cs.flatMap utf16 = s := by
  fun_induction codePoints s generalizing cs with
  | case1 => cases h; rfl
  | case2 | case4 | case5 => cases h
  | case3 u high v rest low ih =>
    obtain ⟨tail, eq, rfl⟩ := Option.map_eq_some_iff.mp h
    simp [utf16_pairValue high low, ih eq]
  | case6 u rest high low ih =>
    obtain ⟨tail, eq, rfl⟩ := Option.map_eq_some_iff.mp h
    simp [utf16_ofNat (by simpa using high) (by simpa using low), ih eq]

theorem codePoints_injective {s t : JsString} {cs : List Char} (hs : codePoints s = some cs)
    (ht : codePoints t = some cs) : s = t := by
  rw [← utf16_codePoints hs, utf16_codePoints ht]

/-! ## encodeURIComponent -/

/-- The characters that `encodeURIComponent` keeps. -/
def isUnreserved (c : Char) : Bool :=
  c.isAlphanum || c ∈ ['-', '_', '.', '!', '~', '*', '\'', '(', ')']

def hexDigit (n : Nat) : Char := Char.ofNat (if n < 10 then 48 + n else 55 + n)

/-- An octet as a percent sign and two hexadecimal digits. -/
def percent (octet : UInt8) : JsString :=
  [unit '%', unit (hexDigit (octet.toNat / 16)), unit (hexDigit (octet.toNat % 16))]

def encodeChar (c : Char) : JsString :=
  if isUnreserved c then [unit c] else (String.utf8EncodeChar c).flatMap percent

def encodeURIComponent (s : JsString) : Option JsString := (codePoints s).map (·.flatMap encodeChar)

theorem unreserved_lt {c : Char} (h : isUnreserved c) : c.toNat < 128 := by
  change (((decide ('A'.val ≤ c.val ∧ c.val ≤ 'Z'.val) || ('a'.val ≤ c.val && c.val ≤ 'z'.val)) ||
    ('0'.val ≤ c.val && c.val ≤ '9'.val)) || c ∈ ['-', '_', '.', '!', '~', '*', '\'', '(', ')']) = true at h
  simp only [Bool.or_eq_true, Bool.and_eq_true, decide_eq_true_eq, List.mem_cons, List.not_mem_nil, or_false,
    UInt32.le_iff_toNat_le] at h
  change c.val.toNat < 128
  rcases h with ((⟨-, h⟩ | ⟨-, h⟩) | ⟨-, h⟩) | h
  · exact Nat.lt_of_le_of_lt h (by decide)
  · exact Nat.lt_of_le_of_lt h (by decide)
  · exact Nat.lt_of_le_of_lt h (by decide)
  · rcases h with rfl | rfl | rfl | rfl | rfl | rfl | rfl | rfl | rfl <;> decide

theorem unit_injective {c d : Char} (hc : c.toNat < 0x10000) (hd : d.toNat < 0x10000) (h : unit c = unit d) :
    c = d := by
  have same : c.toNat = d.toNat := by
    have := congrArg UInt16.toNat h
    simp only [unit, Nat.toUInt16_eq, UInt16.toNat_ofNat'] at this
    omega
  exact Char.toNat_inj.mp same

theorem hexDigit_unreserved {n : Nat} (h : n < 16) : isUnreserved (hexDigit n) := by
  have all : ∀ n < 16, isUnreserved (hexDigit n) := by decide
  exact all n h

theorem hexDigit_injective {m n : Nat} (hm : m < 16) (hn : n < 16) (h : hexDigit m = hexDigit n) : m = n := by
  have all : ∀ m < 16, ∀ n < 16, hexDigit m = hexDigit n → m = n := by decide
  exact all m hm n hn h

theorem percent_injective {a b : UInt8} (h : percent a = percent b) : a = b := by
  have ha := a.toNat_lt
  have hb := b.toNat_lt
  have unitsEqual {m n : Nat} (hm : m < 16) (hn : n < 16) (e : unit (hexDigit m) = unit (hexDigit n)) : m = n := by
    have hm' := unreserved_lt (hexDigit_unreserved hm)
    have hn' := unreserved_lt (hexDigit_unreserved hn)
    exact hexDigit_injective hm hn (unit_injective (by omega) (by omega) e)
  simp only [percent, List.cons.injEq, and_true, true_and] at h
  have high := unitsEqual (by omega) (by omega) h.1
  have low := unitsEqual (by omega) (by omega) h.2
  exact UInt8.toNat_inj.mp (by omega)

/-- Of two percent-encoded octet lists in front of one text, one continues the other. -/
theorem percent_prefix {l m : List UInt8} {r s : JsString} (h : l.flatMap percent ++ r = m.flatMap percent ++ s) :
    (∃ x, l = m ++ x) ∨ ∃ x, m = l ++ x := by
  induction l generalizing m with
  | nil => exact .inr ⟨m, rfl⟩
  | cons a l ih =>
    cases m with
    | nil => exact .inl ⟨a :: l, rfl⟩
    | cons b m =>
      rw [List.flatMap_cons, List.flatMap_cons, List.append_assoc, List.append_assoc] at h
      obtain ⟨head, tail⟩ := List.append_inj h rfl
      rcases ih tail with ⟨x, rfl⟩ | ⟨x, rfl⟩
      · exact .inl ⟨x, by rw [percent_injective head]; rfl⟩
      · exact .inr ⟨x, by rw [percent_injective head]; rfl⟩

theorem utf8EncodeChar_readable : Readable (fun _ => True) (fun _ => True) String.utf8EncodeChar := by
  intro c d r s _ _ _ _ h
  have hc := ByteArray.utf8DecodeChar?_utf8EncodeChar_append (b := r.toByteArray) (c := c)
  have hd := ByteArray.utf8DecodeChar?_utf8EncodeChar_append (b := s.toByteArray) (c := d)
  rw [← List.toByteArray_append, h, List.toByteArray_append, hd] at hc
  obtain rfl := Option.some.inj hc
  exact ⟨rfl, List.append_cancel_left h⟩

theorem percent_sign_reserved {c : Char} (h : isUnreserved c) : unit c ≠ unit '%' := by
  intro e
  have small := unreserved_lt h
  obtain rfl := unit_injective (by omega) (by decide) e
  exact absurd h (by decide)

theorem reserved_starts {c : Char} (h : isUnreserved c = false) : ∃ rest, encodeChar c = unit '%' :: rest := by
  cases octets : String.utf8EncodeChar c with
  | nil => exact absurd octets String.utf8EncodeChar_ne_nil
  | cons a l =>
    exact ⟨(percent a).tail ++ l.flatMap percent, by simp [encodeChar, h, octets, percent]⟩

theorem encodeChar_starts : Starts (fun _ => False) (fun _ => True) encodeChar := by
  intro c _
  cases kept : isUnreserved c with
  | true => exact ⟨unit c, [], by rw [encodeChar, if_pos kept], id⟩
  | false =>
    obtain ⟨rest, word⟩ := reserved_starts kept
    exact ⟨unit '%', rest, word, id⟩

theorem encodeChar_readable : Readable (fun _ => True) (fun _ => True) encodeChar := by
  intro c d r s hc hd hr hs h
  cases keptC : isUnreserved c <;> cases keptD : isUnreserved d
  · -- both are written as octets: one list of octets continues the other, so the characters are equal
    have h' := h
    simp only [encodeChar, keptC, keptD, Bool.false_eq_true, if_false] at h'
    rcases percent_prefix h' with ⟨x, octets⟩ | ⟨x, octets⟩
    · obtain ⟨rfl, -⟩ := utf8EncodeChar_readable c d [] x hc hd trivial (stops_any x) (by simpa using octets)
      exact ⟨rfl, List.append_cancel_left h⟩
    · obtain ⟨rfl, -⟩ := utf8EncodeChar_readable d c [] x hd hc trivial (stops_any x) (by simpa using octets)
      exact ⟨rfl, List.append_cancel_left h⟩
  · obtain ⟨rest, word⟩ := reserved_starts keptC
    rw [word, encodeChar, if_pos keptD] at h
    exact absurd (List.cons.inj h).1.symm (percent_sign_reserved keptD)
  · obtain ⟨rest, word⟩ := reserved_starts keptD
    rw [word, encodeChar, if_pos keptC] at h
    exact absurd (List.cons.inj h).1 (percent_sign_reserved keptC)
  · have smallC := unreserved_lt keptC
    have smallD := unreserved_lt keptD
    rw [encodeChar, if_pos keptC, encodeChar, if_pos keptD] at h
    exact ⟨unit_injective (by omega) (by omega) (List.cons.inj h).1, (List.cons.inj h).2⟩

theorem encodeURIComponent_injective {s t u : JsString} (hs : encodeURIComponent s = some u)
    (ht : encodeURIComponent t = some u) : s = t := by
  obtain ⟨cs, points, rfl⟩ := Option.map_eq_some_iff.mp hs
  obtain ⟨ds, points', same⟩ := Option.map_eq_some_iff.mp ht
  have read := encodeChar_readable.flatMap encodeChar_starts
  obtain rfl := read.injective (fun _ _ => trivial) (fun _ _ => trivial) same
  exact codePoints_injective points points'

/-- Only kept characters and percent signs stand in an encoded string. -/
theorem mem_encodeURIComponent {s t : JsString} (h : encodeURIComponent s = some t) {u : UInt16} (mem : u ∈ t) :
    u = unit '%' ∨ ∃ c, isUnreserved c ∧ u = unit c := by
  obtain ⟨cs, -, rfl⟩ := Option.map_eq_some_iff.mp h
  obtain ⟨c, -, inWord⟩ := List.mem_flatMap.mp mem
  by_cases kept : isUnreserved c
  · rw [encodeChar, if_pos kept] at inWord
    exact .inr ⟨c, kept, List.mem_singleton.mp inWord⟩
  · rw [encodeChar, if_neg kept] at inWord
    obtain ⟨octet, -, inPercent⟩ := List.mem_flatMap.mp inWord
    have bound := octet.toNat_lt
    simp only [percent, List.mem_cons, List.not_mem_nil, or_false] at inPercent
    rcases inPercent with rfl | rfl | rfl
    · exact .inl rfl
    · exact .inr ⟨_, hexDigit_unreserved (by omega), rfl⟩
    · exact .inr ⟨_, hexDigit_unreserved (by omega), rfl⟩

/-- A character that is not kept, other than the percent sign, stands in no encoded string. -/
theorem not_mem_encodeURIComponent {s t : JsString} (h : encodeURIComponent s = some t) {d : Char}
    (small : d.toNat < 128) (reserved : isUnreserved d = false) (notPercent : d ≠ '%') : unit d ∉ t := by
  intro mem
  rcases mem_encodeURIComponent h mem with e | ⟨c, kept, e⟩
  · exact notPercent (unit_injective (by omega) (by decide) e)
  · have smallC := unreserved_lt kept
    obtain rfl := unit_injective (by omega) (by omega) e
    exact absurd kept (by simp [reserved])

end Fluo.Js
