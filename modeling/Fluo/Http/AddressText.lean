import Fluo.Http.Connection
import Fluo.Http.RoutePath
import Mathlib.Data.List.Induction

/-!
# Texts of IP addresses

Which texts stand for which addresses, apart from how they are parsed: a dotted
quad, or eight groups of which one run of zeros may be left out.
-/

namespace Fluo.Http

open Js Code

/-! ## Dotted quads -/

/-- The four octets that a text names, in decimal of at most three digits. -/
def QuadOf (value : JsString) (octets : List Nat) : Prop :=
  ∃ parts : List JsString, parts.length = 4 ∧ (∀ part ∈ parts, isOctetText part = true ∧ numberIn 10 part ≤ 255) ∧
    value = join dot parts ∧ octets = parts.map (numberIn 10)

/-- Digits of a number to a base, the first being the highest. -/
def positional (base : Nat) (l : List Nat) : Nat := l.foldl (fun n d => n * base + d) 0

/-- The text is a dotted quad for the 32 bits of `n`. -/
def DenotesIpv4 (value : JsString) (n : Nat) : Prop := ∃ octets, QuadOf value octets ∧ n = positional 256 octets

theorem not_mem_of_digits {part : JsString} (digits : part.all isDigit = true) {u : UInt16} (h : isDigit u = false) :
    u ∉ part := fun mem => by
  rw [List.all_eq_true.mp digits u mem] at h
  cases h

theorem octet_digits {part : JsString} (h : isOctetText part = true) : part ≠ [] ∧ part.all isDigit = true ∧ part.length ≤ 3 := by
  simp only [isOctetText, isDigits, Bool.and_eq_true, decide_eq_true_eq] at h
  exact ⟨h.1.1, h.1.2, h.2⟩

theorem octet_free {part : JsString} (h : isOctetText part = true) : dot ∉ part :=
  not_mem_of_digits (octet_digits h).2.1 (by decide)

/-- The parser of dotted quads accepts exactly these, with their value. -/
theorem parseIpv4_iff {value : JsString} {n : Nat} : parseIpv4 value = some n ↔ DenotesIpv4 value n := by
  have fold (parts : List JsString) :
      parts.foldl (fun n part => n * 256 + numberIn 10 part) 0 = positional 256 (parts.map (numberIn 10)) := by
    rw [positional, List.foldl_map]
  constructor
  · intro parsed
    rw [parseIpv4] at parsed
    split at parsed
    · next valid =>
      obtain rfl := Option.some.inj parsed
      refine ⟨_, ⟨value.splitOn dot, valid.1, fun part mem => ?_, (join_splitOn value).symm, rfl⟩, fold _⟩
      simpa using List.all_eq_true.mp valid.2 part mem
    · cases parsed
  · rintro ⟨octets, ⟨parts, four, valid, rfl, rfl⟩, rfl⟩
    have some_ : parts ≠ [] := fun empty => by
      rw [empty] at four
      cases four
    have pieces : (join dot parts).splitOn dot = parts := splitOn_join some_ fun part mem => octet_free (valid part mem).1
    rw [parseIpv4, pieces, if_pos ⟨four, List.all_eq_true.mpr fun part mem => by simpa using valid part mem⟩, fold]

theorem positional_four (a b c d : Nat) : positional 256 [a, b, c, d] = ((a * 256 + b) * 256 + c) * 256 + d := by
  simp [positional]

theorem DenotesIpv4.bound {value : JsString} {n : Nat} (h : DenotesIpv4 value n) : n < 2 ^ 32 := by
  obtain ⟨octets, ⟨parts, four, valid, -, rfl⟩, rfl⟩ := h
  obtain ⟨a, b, c, d, rfl⟩ : ∃ a b c d, parts = [a, b, c, d] := by
    match parts, four with
    | [a, b, c, d], _ => exact ⟨a, b, c, d, rfl⟩
  have := (valid a (by simp)).2
  have := (valid b (by simp)).2
  have := (valid c (by simp)).2
  have := (valid d (by simp)).2
  rw [List.map_cons, List.map_cons, List.map_cons, List.map_cons, List.map_nil, positional_four]
  omega

/-- What `formatIpv4` writes is read back. -/
theorem formatIpv4_denotes {n : Nat} (h : n < 2 ^ 32) : DenotesIpv4 (formatIpv4 n) n := by
  have octet (m : Nat) : isOctetText (digitsIn 10 (m % 256)) = true ∧ numberIn 10 (digitsIn 10 (m % 256)) ≤ 255 := by
    have less : m % 256 < 10 ^ 3 := by omega
    constructor
    · simp only [isOctetText, isDigits, Bool.and_eq_true, decide_eq_true_eq]
      exact ⟨⟨digitsIn_ne_nil _ _, digitsIn_all (by decide) (fun d less => digitChar_decimal less) _⟩,
        digitsIn_length (by decide) (by decide) less⟩
    · rw [numberIn_digitsIn (by decide) (by decide)]
      omega
  refine ⟨_, ⟨_, rfl, fun part mem => ?_, rfl, rfl⟩, ?_⟩
  · rcases List.mem_cons.mp mem with rfl | mem
    · exact octet _
    · rcases List.mem_cons.mp mem with rfl | mem
      · exact octet _
      · rcases List.mem_cons.mp mem with rfl | mem
        · exact octet _
        · rcases List.mem_cons.mp mem with rfl | mem
          · exact octet _
          · exact absurd mem List.not_mem_nil
  · simp only [List.map_cons, List.map_nil, numberIn_digitsIn (by decide : 1 < 10) (by decide), positional_four]
    omega

theorem DenotesIpv4.units {value : JsString} {n : Nat} (h : DenotesIpv4 value n) {u : UInt16} (mem : u ∈ value) :
    u = dot ∨ isDigit u = true := by
  obtain ⟨-, ⟨parts, -, valid, rfl, -⟩, -⟩ := h
  refine (mem_join mem).imp id ?_
  rintro ⟨part, memP, mem⟩
  exact List.all_eq_true.mp (octet_digits (valid part memP).1).2.1 u mem

theorem DenotesIpv4.dotted {value : JsString} {n : Nat} (h : DenotesIpv4 value n) : dot ∈ value := by
  obtain ⟨-, ⟨parts, four, -, rfl, -⟩, -⟩ := h
  match parts, four with
  | [a, b, c, d], _ => simp [join]

/-! ## Groups -/

/-- Groups of one to four hexadecimal digits with a colon between any two. -/
def GroupsOf (side : JsString) (groups : List Nat) : Prop :=
  ∃ parts : List JsString, (∀ part ∈ parts, isHexText part = true) ∧ side = join colon parts ∧
    groups = parts.map (numberIn 16)

/-- Eight groups, where `::` stands for one or more groups of zero. -/
def EightGroups (value : JsString) (groups : List Nat) : Prop :=
  groups.length = 8 ∧ (GroupsOf value groups ∨ ∃ before behind front back,
    value = before ++ colon :: colon :: behind ∧ GroupsOf before front ∧ GroupsOf behind back ∧
    ∃ zeros, 0 < zeros ∧ groups = front ++ List.replicate zeros 0 ++ back)

/-- The text stands for the 128 bits of `n`; a dotted quad at its end stands for
the two groups with its bits. -/
def DenotesIpv6 (value : JsString) (n : Nat) : Prop :=
  ∃ groups, n = positional 65536 groups ∧ (EightGroups value groups ∨ ∃ before quad q,
    value = before ++ colon :: quad ∧ DenotesIpv4 quad q ∧
    EightGroups (before ++ colon :: digitsIn 16 (q / 65536) ++ colon :: digitsIn 16 (q % 65536)) groups)

theorem hexText_proper {part : JsString} (h : isHexText part = true) : part ≠ [] ∧ colon ∉ part := by
  simp only [isHexText, Bool.and_eq_true, decide_eq_true_eq, List.all_eq_true] at h
  exact ⟨h.1.1, fun mem => absurd (h.2 colon mem) (by decide)⟩

theorem groupsOf_iff {side : JsString} {groups : List Nat} :
    GroupsOf side groups ↔ (hexGroups side).all isHexText = true ∧ groups = (hexGroups side).map (numberIn 16) := by
  rw [List.all_eq_true]
  constructor
  · rintro ⟨parts, hex, rfl, rfl⟩
    have read : hexGroups (join colon parts) = parts := by
      rw [hexGroups]
      cases parts with
      | nil => rfl
      | cons part rest =>
        have some_ : join colon (part :: rest) ≠ [] := fun empty => by
          have proper := hexText_proper (hex part List.mem_cons_self)
          cases rest with
          | nil => exact proper.1 empty
          | cons next rest =>
            rw [join_cons_cons, List.append_eq_nil_iff] at empty
            exact proper.1 empty.1
        rw [if_neg some_, splitOn_join (List.cons_ne_nil _ _) fun p mem => (hexText_proper (hex p mem)).2]
    rw [read]
    exact ⟨hex, rfl⟩
  · rintro ⟨hex, rfl⟩
    refine ⟨hexGroups side, hex, ?_, rfl⟩
    rw [hexGroups]
    split
    · next empty => rw [empty]; rfl
    · exact (join_splitOn side).symm

theorem GroupsOf.split {x y : JsString} {groups : List Nat} (h : GroupsOf (x ++ colon :: y) groups) :
    ∃ front back, GroupsOf x front ∧ GroupsOf y back ∧ x ≠ [] ∧ y ≠ [] ∧ groups = front ++ back := by
  obtain ⟨hex, rfl⟩ := groupsOf_iff.mp h
  have pieces : hexGroups (x ++ colon :: y) = x.splitOn colon ++ y.splitOn colon := by
    rw [hexGroups, if_neg (by simp), List.splitOn_append_cons_self]
  rw [pieces, List.all_append, Bool.and_eq_true] at hex
  have full {z : JsString} (hex : (z.splitOn colon).all isHexText = true) : z ≠ [] := by
    rintro rfl
    rw [List.splitOn_nil] at hex
    exact absurd hex (by decide)
  have groups {z : JsString} (hex : (z.splitOn colon).all isHexText = true) :
      GroupsOf z ((z.splitOn colon).map (numberIn 16)) := by
    have same : hexGroups z = z.splitOn colon := by rw [hexGroups, if_neg (full hex)]
    exact groupsOf_iff.mpr ⟨same ▸ hex, by rw [same]⟩
  exact ⟨_, _, groups hex.1, groups hex.2, full hex.1, full hex.2, by rw [pieces, List.map_append]⟩

theorem GroupsOf.no_double {x y : JsString} {groups : List Nat} : ¬ GroupsOf (x ++ colon :: colon :: y) groups := by
  intro h
  obtain ⟨-, back, -, second, -⟩ := h.split
  obtain ⟨-, -, -, -, some_, -⟩ := second.split (x := [])
  exact some_ rfl

theorem GroupsOf.no_start {y : JsString} {groups : List Nat} : ¬ GroupsOf (colon :: y) groups := by
  intro h
  obtain ⟨-, -, -, -, some_, -⟩ := h.split (x := [])
  exact some_ rfl

/-- The double colon between two sides of groups is the only one. -/
theorem double_unique {before behind x y : JsString} {front back : List Nat} (first : GroupsOf before front)
    (second : GroupsOf behind back) (same : before ++ colon :: colon :: behind = x ++ colon :: colon :: y) : x = before := by
  rcases List.append_eq_append_iff.mp same with ⟨more, rfl, rest⟩ | ⟨more, rfl, rest⟩
  · match more, rest with
    | [], _ => exact List.append_nil before
    | [u], rest =>
      simp only [List.cons_append, List.nil_append, List.cons.injEq] at rest
      rw [rest.2.2] at second
      exact absurd second GroupsOf.no_start
    | u :: v :: more, rest =>
      simp only [List.cons_append, List.cons.injEq] at rest
      rw [rest.2.2] at second
      exact absurd second GroupsOf.no_double
  · match more, rest with
    | [], _ => exact (List.append_nil x).symm
    | u :: more, rest =>
      simp only [List.cons_append, List.cons.injEq] at rest
      obtain ⟨rfl, rest⟩ := rest
      obtain ⟨-, back, -, third, -, some_, -⟩ := first.split
      match more, rest with
      | [], _ => exact absurd rfl some_
      | v :: more, rest =>
        rw [List.cons_append, List.cons.injEq] at rest
        exact absurd (rest.1 ▸ third) GroupsOf.no_start

/-! ## The parser of groups -/

/-- What `parseIpv6` does once the dotted quad is replaced. -/
def parseGroups (value : JsString) : Option Nat :=
  let doubleColon := indexOf [colon, colon] value
  if doubleColon ≠ lastIndexOf [colon, colon] value then none
  else
    let headParts := hexGroups (match doubleColon with
      | none => value
      | some i => value.take i)
    let tailParts := hexGroups (match doubleColon with
      | none => []
      | some i => value.drop (i + 2))
    let length := headParts.length + tailParts.length
    if !(headParts.all isHexText && tailParts.all isHexText) then none
    else if (doubleColon = none ∧ length ≠ 8) ∨ (doubleColon ≠ none ∧ 8 ≤ length) then none
    else
      let parts := headParts ++ List.replicate (8 - length) (text "0") ++ tailParts
      some (parts.foldl (fun n part => n * 65536 + numberIn 16 part) 0)

theorem foldl_positional (parts : List JsString) :
    parts.foldl (fun n part => n * 65536 + numberIn 16 part) 0 = positional 65536 (parts.map (numberIn 16)) := by
  rw [positional, List.foldl_map]

theorem parseGroups_full {value : JsString} (first : indexOf [colon, colon] value = none)
    (last : lastIndexOf [colon, colon] value = none) : parseGroups value =
      if (hexGroups value).all isHexText = true ∧ (hexGroups value).length = 8 then
        some (positional 65536 ((hexGroups value).map (numberIn 16)))
      else none := by
  have empty : hexGroups [] = [] := rfl
  simp only [parseGroups, first, last, empty]
  by_cases hex : (hexGroups value).all isHexText = true
  · by_cases eight : (hexGroups value).length = 8
    · simp [hex, eight, foldl_positional]
    · simp [hex, eight]
  · simp [hex]

theorem parseGroups_double {before behind : JsString}
    (first : indexOf [colon, colon] (before ++ colon :: colon :: behind) = some before.length)
    (last : lastIndexOf [colon, colon] (before ++ colon :: colon :: behind) = some before.length) :
    parseGroups (before ++ colon :: colon :: behind) =
      if ((hexGroups before).all isHexText = true ∧ (hexGroups behind).all isHexText = true) ∧
          (hexGroups before).length + (hexGroups behind).length < 8 then
        some (positional 65536 ((hexGroups before).map (numberIn 16) ++
          List.replicate (8 - ((hexGroups before).length + (hexGroups behind).length)) 0 ++
          (hexGroups behind).map (numberIn 16)))
      else none := by
  have front : (before ++ colon :: colon :: behind).take before.length = before := List.take_left
  have back : (before ++ colon :: colon :: behind).drop (before.length + 2) = behind := by
    rw [List.drop_append]
    simp
  have zeros (n : Nat) : (List.replicate n (text "0")).map (numberIn 16) = List.replicate n 0 := by
    rw [List.map_replicate]
    rfl
  simp only [parseGroups, first, last, front, back, foldl_positional, List.map_append, zeros]
  by_cases hex : (hexGroups before).all isHexText = true
  · by_cases hex' : (hexGroups behind).all isHexText = true
    · by_cases short : (hexGroups before).length + (hexGroups behind).length < 8
      · simp [hex, hex', short]
      · simp [hex, hex', short, Nat.le_of_not_lt short]
    · simp [hex, hex']
  · simp [hex]

theorem indexOf_double {before behind : JsString} {front back : List Nat} (first : GroupsOf before front)
    (second : GroupsOf behind back) :
    indexOf [colon, colon] (before ++ colon :: colon :: behind) = some before.length ∧
      lastIndexOf [colon, colon] (before ++ colon :: colon :: behind) = some before.length := by
  have shape : before ++ colon :: colon :: behind = before ++ [colon, colon] ++ behind := by simp
  constructor
  · cases found : indexOf [colon, colon] (before ++ colon :: colon :: behind) with
    | none => exact absurd shape (indexOf_none found before behind)
    | some i =>
      obtain ⟨x, y, same, rfl⟩ := indexOf_some found
      have only : x = before := double_unique first second (same.trans (by simp : _ = x ++ colon :: colon :: y))
      rw [only]
  · cases found : lastIndexOf [colon, colon] (before ++ colon :: colon :: behind) with
    | none => exact absurd shape (lastIndexOf_none found before behind)
    | some i =>
      obtain ⟨x, y, same, rfl⟩ := lastIndexOf_some found
      have only : x = before := double_unique first second (same.trans (by simp : _ = x ++ colon :: colon :: y))
      rw [only]

/-- The parser of groups accepts exactly eight groups, with their value. -/
theorem parseGroups_iff {value : JsString} {n : Nat} :
    parseGroups value = some n ↔ ∃ groups, n = positional 65536 groups ∧ EightGroups value groups := by
  constructor
  · intro parsed
    have agree : indexOf [colon, colon] value = lastIndexOf [colon, colon] value := by
      by_contra differ
      rw [parseGroups, if_pos differ] at parsed
      cases parsed
    cases found : indexOf [colon, colon] value with
    | none =>
      rw [parseGroups_full found (agree ▸ found)] at parsed
      split at parsed
      · next valid =>
        obtain rfl := Option.some.inj parsed
        exact ⟨_, rfl, by rw [List.length_map, valid.2], .inl (groupsOf_iff.mpr ⟨valid.1, rfl⟩)⟩
      · cases parsed
    | some i =>
      obtain ⟨before, behind, shape, rfl⟩ := indexOf_some found
      obtain rfl : value = before ++ colon :: colon :: behind := by rw [shape]; simp
      rw [parseGroups_double found (agree ▸ found)] at parsed
      split at parsed
      · next valid =>
        obtain rfl := Option.some.inj parsed
        refine ⟨_, rfl, ?_, .inr ⟨before, behind, _, _, rfl, groupsOf_iff.mpr ⟨valid.1.1, rfl⟩,
          groupsOf_iff.mpr ⟨valid.1.2, rfl⟩, _, ?_, rfl⟩⟩
        · simp only [List.length_append, List.length_map, List.length_replicate]
          omega
        · omega
      · cases parsed
  · rintro ⟨groups, rfl, eight, full | ⟨before, behind, front, back, rfl, first, second, zeros, positive, rfl⟩⟩
    · have absent (x y : JsString) : value ≠ x ++ [colon, colon] ++ y := by
        rintro rfl
        rw [List.append_assoc] at full
        exact full.no_double
      have first : indexOf [colon, colon] value = none := by
        cases found : indexOf [colon, colon] value with
        | none => rfl
        | some i =>
          obtain ⟨x, y, shape, -⟩ := indexOf_some found
          exact absurd shape (absent x y)
      have last : lastIndexOf [colon, colon] value = none := by
        cases found : lastIndexOf [colon, colon] value with
        | none => rfl
        | some i =>
          obtain ⟨x, y, shape, -⟩ := lastIndexOf_some found
          exact absurd shape (absent x y)
      obtain ⟨hex, rfl⟩ := groupsOf_iff.mp full
      rw [parseGroups_full first last, if_pos ⟨hex, by rw [← eight, List.length_map]⟩]
    · obtain ⟨found, found'⟩ := indexOf_double first second
      obtain ⟨hex, rfl⟩ := groupsOf_iff.mp first
      obtain ⟨hex', rfl⟩ := groupsOf_iff.mp second
      simp only [List.length_append, List.length_map, List.length_replicate] at eight
      rw [parseGroups_double found found', if_pos ⟨⟨hex, hex'⟩, by omega⟩]
      have same : 8 - ((hexGroups before).length + (hexGroups behind).length) = zeros := by omega
      rw [same]

/-! ## The parser of addresses -/

theorem lastIndexOf_colon {before behind : JsString} (free : colon ∉ behind) :
    lastIndexOf [colon] (before ++ colon :: behind) = some before.length := by
  induction before with
  | nil =>
    have absent : lastIndexOf [colon] behind = none := by
      cases found : lastIndexOf [colon] behind with
      | none => rfl
      | some i =>
        obtain ⟨x, y, rfl, -⟩ := lastIndexOf_some found
        exact absurd (by simp) free
    rw [List.nil_append, lastIndexOf, absent]
    rfl
  | cons u before ih =>
    rw [List.cons_append, lastIndexOf, ih]
    rfl

theorem EightGroups.units {value : JsString} {groups : List Nat} (h : EightGroups value groups) {u : UInt16}
    (mem : u ∈ value) : u = colon ∨ isDigit u = true ∨ unit 'a' ≤ u ∧ u ≤ unit 'f' := by
  have side {side : JsString} {groups : List Nat} (h : GroupsOf side groups) (mem : u ∈ side) :
      u = colon ∨ isDigit u = true ∨ unit 'a' ≤ u ∧ u ≤ unit 'f' := by
    obtain ⟨parts, hex, rfl, -⟩ := h
    refine (mem_join mem).imp id ?_
    rintro ⟨part, memP, mem⟩
    have all := hex part memP
    simp only [isHexText, Bool.and_eq_true, List.all_eq_true] at all
    simpa using all.2 u mem
  obtain ⟨-, full | ⟨before, behind, front, back, rfl, first, second, -⟩⟩ := h
  · exact side full mem
  · rcases List.mem_append.mp mem with mem | mem
    · exact side first mem
    · rcases List.mem_cons.mp mem with rfl | mem
      · exact .inl rfl
      · rcases List.mem_cons.mp mem with rfl | mem
        · exact .inl rfl
        · exact side second mem

/-- The dotted quad behind the last colon, with the place of this colon. -/
def embeddedQuad (normalized : JsString) : Option (Nat × Nat) :=
  (lastIndexOf [colon] normalized).bind fun separator =>
    let candidate := normalized.drop (separator + 1)
    if dot ∈ candidate then (parseIpv4 candidate).map (separator, ·) else none

theorem parseIpv6_eq (host : CaseMapping) (value : JsString) : parseIpv6 host value =
    parseGroups (match embeddedQuad (host.toLowerCase value) with
      | some (separator, ipv4) => (host.toLowerCase value).take separator ++ colon :: digitsIn 16 (ipv4 / 65536) ++
          colon :: digitsIn 16 (ipv4 % 65536)
      | none => host.toLowerCase value) := rfl

theorem embeddedQuad_some {value : JsString} {separator q : Nat} (h : embeddedQuad value = some (separator, q)) :
    ∃ quad, value = value.take separator ++ colon :: quad ∧ DenotesIpv4 quad q := by
  obtain ⟨i, found, h⟩ := Option.bind_eq_some_iff.mp h
  dsimp only at h
  split at h
  · obtain ⟨n, parsed, same⟩ := Option.map_eq_some_iff.mp h
    cases same
    obtain ⟨x, y, shape, rfl⟩ := lastIndexOf_some found
    obtain rfl : value = x ++ colon :: y := by rw [shape]; simp
    refine ⟨y, by rw [List.take_left], ?_⟩
    have behind : (x ++ colon :: y).drop (x.length + 1) = y := by
      rw [List.drop_append]
      simp
    rwa [behind, parseIpv4_iff] at parsed
  · cases h

theorem embeddedQuad_quad {before quad : JsString} {q : Nat} (denotes : DenotesIpv4 quad q) :
    embeddedQuad (before ++ colon :: quad) = some (before.length, q) := by
  have free : colon ∉ quad := fun mem => by
    rcases denotes.units mem with same | digit
    · exact absurd same (by decide)
    · exact absurd digit (by decide)
  have behind : (before ++ colon :: quad).drop (before.length + 1) = quad := by
    rw [List.drop_append]
    simp
  rw [embeddedQuad, lastIndexOf_colon free, Option.bind_some]
  dsimp only
  rw [behind, if_pos denotes.dotted, parseIpv4_iff.mpr denotes]
  rfl

theorem embeddedQuad_groups {value : JsString} {groups : List Nat} (h : EightGroups value groups) :
    embeddedQuad value = none := by
  cases found : embeddedQuad value with
  | none => rfl
  | some both =>
    obtain ⟨separator, q⟩ := both
    obtain ⟨quad, shape, denotes⟩ := embeddedQuad_some found
    have mem : dot ∈ value := by
      rw [shape]
      exact List.mem_append_right _ (List.mem_cons_of_mem _ denotes.dotted)
    rcases h.units mem with same | digit | letter
    · exact absurd same (by decide)
    · exact absurd digit (by decide)
    · exact absurd letter (by decide)

theorem positional_lt {base : Nat} {l : List Nat} (small : ∀ d ∈ l, d < base) : positional base l < base ^ l.length := by
  induction l using List.reverseRecOn with
  | nil => exact Nat.one_pos
  | append_singleton l d ih =>
    have before := ih fun e mem => small e (List.mem_append_left _ mem)
    have last := small d (List.mem_append_right _ List.mem_cons_self)
    rw [positional, List.foldl_append, List.foldl_cons, List.foldl_nil, List.length_append, List.length_singleton,
      Nat.pow_succ]
    rw [positional] at before
    calc (l.foldl (fun n d => n * base + d) 0) * base + d
        < (l.foldl (fun n d => n * base + d) 0) * base + base := Nat.add_lt_add_left last _
      _ = (l.foldl (fun n d => n * base + d) 0 + 1) * base := by rw [Nat.add_mul, Nat.one_mul]
      _ ≤ base ^ l.length * base := Nat.mul_le_mul_right base before

theorem hexDigit_value {u : UInt16} (h : (isDigit u || (unit 'a' ≤ u && u ≤ unit 'f')) = true) : digitValue u < 16 := by
  simp only [isDigit, Bool.or_eq_true, Bool.and_eq_true, decide_eq_true_eq, UInt16.le_iff_toNat_le] at h
  have zero : (unit '0').toNat = 48 := rfl
  have nine : (unit '9').toNat = 57 := rfl
  have low : (unit 'a').toNat = 97 := rfl
  have high : (unit 'f').toNat = 102 := rfl
  simp only [digitValue, isDigit, Bool.and_eq_true, decide_eq_true_eq, UInt16.le_iff_toNat_le]
  split <;> omega

theorem hexText_value {part : JsString} (h : isHexText part = true) : numberIn 16 part < 65536 := by
  simp only [isHexText, Bool.and_eq_true, decide_eq_true_eq, List.all_eq_true] at h
  have small : ∀ d ∈ part.map digitValue, d < 16 := by
    intro d mem
    obtain ⟨u, memU, rfl⟩ := List.mem_map.mp mem
    exact hexDigit_value (h.2 u memU)
  have value : numberIn 16 part = positional 16 (part.map digitValue) := by rw [positional, List.foldl_map, numberIn]
  have bound := positional_lt small
  rw [← value, List.length_map] at bound
  exact bound.trans_le (Nat.pow_le_pow_right (by decide) h.1.2 : 16 ^ part.length ≤ 16 ^ 4)

theorem EightGroups.small {value : JsString} {groups : List Nat} (h : EightGroups value groups) :
    ∀ g ∈ groups, g < 65536 := by
  have side {side : JsString} {groups : List Nat} (h : GroupsOf side groups) : ∀ g ∈ groups, g < 65536 := by
    obtain ⟨parts, hex, -, rfl⟩ := h
    intro g mem
    obtain ⟨part, memP, rfl⟩ := List.mem_map.mp mem
    exact hexText_value (hex part memP)
  obtain ⟨-, full | ⟨before, behind, front, back, -, first, second, zeros, -, rfl⟩⟩ := h
  · exact side full
  · intro g mem
    rw [List.mem_append, List.mem_append] at mem
    rcases mem with (mem | mem) | mem
    · exact side first g mem
    · rw [(List.mem_replicate.mp mem).2]
      decide
    · exact side second g mem

theorem DenotesIpv6.bound {value : JsString} {n : Nat} (h : DenotesIpv6 value n) : n < 2 ^ 128 := by
  obtain ⟨groups, rfl, eight | ⟨before, quad, q, -, -, eight⟩⟩ := h
  · have bound := positional_lt eight.small
    rwa [eight.1] at bound
  · have bound := positional_lt eight.small
    rwa [eight.1] at bound

theorem DenotesIpv6.units {value : JsString} {n : Nat} (h : DenotesIpv6 value n) {u : UInt16} (mem : u ∈ value) :
    u = colon ∨ u = dot ∨ isDigit u = true ∨ unit 'a' ≤ u ∧ u ≤ unit 'f' := by
  obtain ⟨groups, -, eight | ⟨before, quad, q, rfl, denotes, eight⟩⟩ := h
  · exact (eight.units mem).imp id .inr
  · rcases List.mem_append.mp mem with mem | mem
    · exact (eight.units (List.mem_append_left _ (List.mem_append_left _ mem))).imp id .inr
    · rcases List.mem_cons.mp mem with rfl | mem
      · exact .inl rfl
      · exact .inr ((denotes.units mem).imp id .inl)

/-- The parser of IPv6 addresses accepts exactly their texts in lower case. -/
theorem parseIpv6_iff (host : CaseMapping) {value : JsString} {n : Nat} :
    parseIpv6 host value = some n ↔ DenotesIpv6 (host.toLowerCase value) n := by
  rw [parseIpv6_eq]
  constructor
  · intro parsed
    cases found : embeddedQuad (host.toLowerCase value) with
    | none =>
      rw [found] at parsed
      obtain ⟨groups, eq, eight⟩ := parseGroups_iff.mp parsed
      exact ⟨groups, eq, .inl eight⟩
    | some both =>
      obtain ⟨separator, q⟩ := both
      rw [found] at parsed
      obtain ⟨groups, eq, eight⟩ := parseGroups_iff.mp parsed
      obtain ⟨quad, shape, denotes⟩ := embeddedQuad_some found
      exact ⟨groups, eq, .inr ⟨_, quad, q, shape, denotes, eight⟩⟩
  · rintro ⟨groups, eq, eight | ⟨before, quad, q, shape, denotes, eight⟩⟩
    · rw [embeddedQuad_groups eight]
      exact parseGroups_iff.mpr ⟨groups, eq, eight⟩
    · rw [shape, embeddedQuad_quad denotes]
      dsimp only
      rw [List.take_left]
      exact parseGroups_iff.mpr ⟨groups, eq, eight⟩

end Fluo.Http
