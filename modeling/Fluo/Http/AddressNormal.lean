import Fluo.Http.AddressText

/-!
# Normalized addresses and networks

What normalizing an address keeps, and which rules cover an address.
-/

namespace Fluo.Http

open Js Code

/-- What `toLowerCase` is known to do: twice is once, and a text of digits,
lower case letters and punctuation stays as it is. -/
structure CaseMapping.Lowers (host : CaseMapping) : Prop where
  again : ∀ s, host.toLowerCase (host.toLowerCase s) = host.toLowerCase s
  plain : ∀ s : JsString, (∀ u ∈ s, u < 128 ∧ ¬ (unit 'A' ≤ u ∧ u ≤ unit 'Z')) → host.toLowerCase s = s

def ParsedAddress.unmapped : ParsedAddress → ParsedAddress
  | .ipv4 n => .ipv4 n
  | .ipv6 n => if n / 2 ^ 32 = 0xffff then .ipv4 (n % 2 ^ 32) else .ipv6 n

def ParsedAddress.value : ParsedAddress → Nat
  | .ipv4 n => n
  | .ipv6 n => n

def ParsedAddress.bits : ParsedAddress → Nat
  | .ipv4 _ => 32
  | .ipv6 _ => 128

section

variable (host : CaseMapping)

/-- A text without brackets and port stands for an address. -/
def DenotesText (value : JsString) : ParsedAddress → Prop
  | .ipv4 n => DenotesIpv4 value n
  | .ipv6 n => DenotesIpv6 (host.toLowerCase value) n

/-- The address that a peer's text stands for, brackets and port aside. -/
def Denotes (value : JsString) (address : ParsedAddress) : Prop :=
  ∃ name raw, addressText (trim value) = some name ∧ DenotesText host name raw ∧ address = raw.unmapped

/-- The leading bits of an address are those of a network of its family. -/
inductive Within : ParsedAddress → ParsedAddress → Nat → Prop
  | ipv4 {x y size : Nat} (same : ∀ i, 32 - size ≤ i → i < 32 → x.testBit i = y.testBit i) : Within (.ipv4 x) (.ipv4 y) size
  | ipv6 {x y size : Nat} (same : ∀ i, 128 - size ≤ i → i < 128 → x.testBit i = y.testBit i) : Within (.ipv6 x) (.ipv6 y) size

/-- The network of a rule, and its prefix length if it names one. -/
inductive RuleText (rule : JsString) : JsString → Option Nat → Prop
  | address {network : JsString} (free : slash ∉ network) (shape : trim rule = network) : RuleText rule network none
  | cidr {network digits : JsString} (free : slash ∉ network) (shape : trim rule = network ++ slash :: digits)
      (decimal : isDigits digits = true) : RuleText rule network (some (numberIn 10 digits))

/-- A network in the mapped range is one of IPv4 addresses. -/
inductive Translates : ParsedAddress → Nat → ParsedAddress → Nat → Prop
  | ipv4 (n size : Nat) : Translates (.ipv4 n) size (.ipv4 n) size
  | ipv6 {n : Nat} (plain : n / 2 ^ 32 ≠ 0xffff) (size : Nat) : Translates (.ipv6 n) size (.ipv6 n) size
  | mapped {n size : Nat} (mapped : n / 2 ^ 32 = 0xffff) (covered : 96 ≤ size) :
      Translates (.ipv6 n) size (.ipv4 (n % 2 ^ 32)) (size - 96)

/-- A rule is a well-formed network that has the address. -/
def Covers (rule : JsString) (address : ParsedAddress) : Prop :=
  ∃ network size raw target length, RuleText rule network size ∧ DenotesText host network raw ∧
    size.getD raw.bits ≤ raw.bits ∧ Translates raw (size.getD raw.bits) target length ∧ Within address target length

/-- Two texts of one IPv6 address that differ in more than case. -/
def SpelledApart (a b : JsString) : Prop :=
  ∃ x y n, addressText (trim a) = some x ∧ addressText (trim b) = some y ∧ Denotes host a (.ipv6 n) ∧
    Denotes host b (.ipv6 n) ∧ host.toLowerCase x ≠ host.toLowerCase y

end

/-! ## What texts stand for -/

variable {host : CaseMapping}

theorem DenotesIpv4.lower {value : JsString} {n : Nat} (lowers : host.Lowers) (h : DenotesIpv4 value n) :
    host.toLowerCase value = value := by
  refine lowers.plain value fun u mem => ?_
  rcases h.units mem with rfl | digit
  · decide
  · simp only [isDigit, Bool.and_eq_true, decide_eq_true_eq, UInt16.le_iff_toNat_le] at digit
    have nine : (unit '9').toNat = 57 := rfl
    have capital : (unit 'A').toNat = 65 := rfl
    rw [UInt16.lt_iff_toNat_lt, UInt16.le_iff_toNat_le]
    exact ⟨show u.toNat < 128 by omega, by omega⟩

theorem DenotesIpv6.colons {value : JsString} {n : Nat} (h : DenotesIpv6 value n) : colon ∈ value := by
  obtain ⟨groups, -, ⟨eight, ⟨parts, -, rfl, rfl⟩ | ⟨before, behind, front, back, rfl, -⟩⟩ |
    ⟨before, quad, q, rfl, -⟩⟩ := h
  · rw [List.length_map] at eight
    match parts, eight with
    | x :: y :: rest, _ =>
      rw [join_cons_cons]
      exact List.mem_append_right _ List.mem_cons_self
  · exact List.mem_append_right _ List.mem_cons_self
  · exact List.mem_append_right _ List.mem_cons_self

theorem DenotesIpv4.no_colon {value : JsString} {n : Nat} (h : DenotesIpv4 value n) : colon ∉ value := fun mem => by
  rcases h.units mem with same | digit
  · exact absurd same (by decide)
  · exact absurd digit (by decide)

theorem parseAddress_iff (lowers : host.Lowers) {value : JsString} {address : ParsedAddress} :
    parseAddress host value = some address ↔ DenotesText host value address := by
  rw [parseAddress]
  cases v4 : parseIpv4 value with
  | some n =>
    have denotes := parseIpv4_iff.mp v4
    cases address with
    | ipv4 m =>
      rw [DenotesText, ← parseIpv4_iff, v4]
      simp
    | ipv6 m =>
      refine ⟨nofun, fun denotes6 => ?_⟩
      rw [DenotesText, denotes.lower lowers] at denotes6
      exact absurd denotes6.colons denotes.no_colon
  | none =>
    cases address with
    | ipv4 m =>
      rw [DenotesText, ← parseIpv4_iff, v4]
      simp
    | ipv6 m =>
      rw [DenotesText, ← parseIpv6_iff]
      simp

theorem DenotesText.bound {value : JsString} {address : ParsedAddress} (h : DenotesText host value address) :
    address.value < 2 ^ address.bits := by
  cases address with
  | ipv4 n => exact DenotesIpv4.bound h
  | ipv6 n => exact DenotesIpv6.bound h

/-! ## Normal forms -/

/-- The normal form of an address that is written as `name`. -/
def normalText (host : CaseMapping) (name : JsString) : ParsedAddress → JsString
  | .ipv4 n => formatIpv4 n
  | .ipv6 _ => host.toLowerCase name

theorem normalizeAddress_some (lowers : host.Lowers) {a out : JsString} (h : normalizeAddress host a = some out) :
    ∃ name raw, addressText (trim a) = some name ∧ DenotesText host name raw ∧ out = normalText host name raw.unmapped := by
  rw [normalizeAddress] at h
  split at h
  · cases h
  · obtain ⟨name, named, h⟩ := Option.bind_eq_some_iff.mp h
    cases parsed : parseAddress host name with
    | none =>
      rw [parsed] at h
      cases h
    | some raw =>
      rw [parsed] at h
      refine ⟨name, raw, named, (parseAddress_iff lowers).mp parsed, ?_⟩
      cases raw with
      | ipv4 n => exact (Option.some.inj h).symm
      | ipv6 n =>
        dsimp only at h
        rw [ipv4FromMappedIpv6] at h
        rw [ParsedAddress.unmapped]
        by_cases mapped : n / 2 ^ 32 = 0xffff
        · rw [if_pos mapped] at h ⊢
          exact (Option.some.inj h).symm
        · rw [if_neg mapped] at h ⊢
          exact (Option.some.inj h).symm

def isAddressUnit (u : UInt16) : Bool := u = colon || u = dot || isDigit u || (unit 'a' ≤ u && u ≤ unit 'f')

theorem isAddressUnit_toNat {u : UInt16} (h : isAddressUnit u = true) :
    u.toNat = 58 ∨ u.toNat = 46 ∨ (48 ≤ u.toNat ∧ u.toNat ≤ 57) ∨ (97 ≤ u.toNat ∧ u.toNat ≤ 102) := by
  simp only [isAddressUnit, isDigit, Bool.or_eq_true, Bool.and_eq_true, decide_eq_true_eq, UInt16.le_iff_toNat_le] at h
  rcases h with ((rfl | rfl) | digit) | letter
  · exact .inl rfl
  · exact .inr (.inl rfl)
  · exact .inr (.inr (.inl digit))
  · exact .inr (.inr (.inr letter))

theorem isAddressUnit_not_white {u : UInt16} (h : isAddressUnit u = true) : isWhiteSpace u = false := by
  have cases_ := isAddressUnit_toNat h
  exact isWhiteSpace_visible (by omega) (by omega)

theorem DenotesIpv4.addressUnits {value : JsString} {n : Nat} (h : DenotesIpv4 value n) :
    ∀ u ∈ value, isAddressUnit u = true := fun u mem => by
  rcases h.units mem with rfl | digit
  · decide
  · simp [isAddressUnit, digit]

theorem DenotesIpv6.addressUnits {value : JsString} {n : Nat} (h : DenotesIpv6 value n) :
    ∀ u ∈ value, isAddressUnit u = true := fun u mem => by
  rcases h.units mem with rfl | rfl | digit | letter
  · decide
  · decide
  · simp [isAddressUnit, digit]
  · simp [isAddressUnit, letter]

theorem parseIpv4WithPort_ipv6 {value : JsString} {n : Nat} (h : DenotesIpv6 value n) : parseIpv4WithPort value = none := by
  rw [parseIpv4WithPort]
  split
  · next address digits pieces =>
    dsimp only
    rw [if_neg]
    rintro ⟨four, -, decimal⟩
    have shape : value = address ++ colon :: digits := by
      rw [← join_splitOn value, pieces]
      rfl
    have dotted : dot ∈ address := by
      by_contra free
      rw [List.splitOn_eq_singleton free] at four
      cases four
    simp only [isDigits, Bool.and_eq_true] at decimal
    obtain ⟨groups, -, eight | ⟨before, quad, q, shape', denotes, -⟩⟩ := h
    · rcases eight.units (shape ▸ List.mem_append_left _ dotted : dot ∈ value) with same | digit | letter
      · exact absurd same (by decide)
      · exact absurd digit (by decide)
      · exact absurd letter (by decide)
    · have last : before.splitOn colon ++ [quad] = [address] ++ [digits] := by
        rw [← List.splitOn_eq_singleton denotes.no_colon, ← List.splitOn_append_cons_self, ← shape', pieces]
        rfl
      have same : quad = digits := by simpa using (List.append_inj' last rfl).2
      exact not_mem_of_digits decimal.2 (by decide) (same ▸ denotes.dotted)
  · rfl

theorem normalizeAddress_normal (lowers : host.Lowers) {name : JsString} {raw : ParsedAddress}
    (denotes : DenotesText host name raw) (low : host.toLowerCase name = name) :
    normalizeAddress host name = some (normalText host name raw.unmapped) := by
  have units : ∀ u ∈ name, isAddressUnit u = true := by
    cases raw with
    | ipv4 n => exact DenotesIpv4.addressUnits denotes
    | ipv6 n =>
      rw [DenotesText, low] at denotes
      exact denotes.addressUnits
  have other {u : UInt16} (far : isAddressUnit u = false) : name.head? ≠ some u := fun first => by
    rw [units u (List.mem_of_head? first)] at far
    cases far
  have some_ : name ≠ [] := by
    rintro rfl
    cases raw with
    | ipv4 n => exact absurd (DenotesIpv4.dotted denotes) List.not_mem_nil
    | ipv6 n =>
      rw [DenotesText, low] at denotes
      exact absurd denotes.colons List.not_mem_nil
  have known : name ≠ text "unknown" := by
    rintro rfl
    exact absurd (units (unit 'u') (by decide)) (by decide)
  have named : addressText name = some name := by
    rw [addressText, if_neg (other (by decide))]
    have bare : parseIpv4WithPort name = none := by
      cases raw with
      | ipv4 n =>
        rw [parseIpv4WithPort, List.splitOn_eq_singleton (DenotesIpv4.no_colon denotes)]
      | ipv6 n =>
        rw [DenotesText, low] at denotes
        exact parseIpv4WithPort_ipv6 denotes
    rw [bare]
  rw [normalizeAddress, trim_self fun u mem => isAddressUnit_not_white (units u mem)]
  rw [if_neg, named, Option.bind_some, (parseAddress_iff lowers).mpr denotes]
  · cases raw with
    | ipv4 n => rfl
    | ipv6 n =>
      dsimp only
      rw [ipv4FromMappedIpv6, ParsedAddress.unmapped]
      by_cases mapped : n / 2 ^ 32 = 0xffff
      · rw [if_pos mapped, if_pos mapped]
        rfl
      · rw [if_neg mapped, if_neg mapped]
        rfl
  · rw [low, not_or, not_or]
    exact ⟨some_, known, other (by decide)⟩

theorem ParsedAddress.unmapped_unmapped (address : ParsedAddress) : address.unmapped.unmapped = address.unmapped := by
  cases address with
  | ipv4 n => rfl
  | ipv6 n =>
    rw [unmapped]
    split
    · rfl
    · next plain => rw [unmapped, if_neg plain]

theorem normalText_denotes (lowers : host.Lowers) {name : JsString} {raw : ParsedAddress}
    (denotes : DenotesText host name raw) :
    DenotesText host (normalText host name raw.unmapped) raw.unmapped ∧
      host.toLowerCase (normalText host name raw.unmapped) = normalText host name raw.unmapped := by
  have quad {n : Nat} (less : n < 2 ^ 32) : DenotesIpv4 (formatIpv4 n) n ∧ host.toLowerCase (formatIpv4 n) = formatIpv4 n :=
    ⟨formatIpv4_denotes less, (formatIpv4_denotes less).lower lowers⟩
  cases raw with
  | ipv4 n => exact quad denotes.bound
  | ipv6 n =>
    rw [ParsedAddress.unmapped]
    split
    · exact quad (Nat.mod_lt n (by decide))
    · rw [normalText, DenotesText, lowers.again]
      exact ⟨denotes, rfl⟩

theorem normalizeAddress_again (lowers : host.Lowers) {a out : JsString} (h : normalizeAddress host a = some out) :
    normalizeAddress host out = some out := by
  obtain ⟨name, raw, -, denotes, rfl⟩ := normalizeAddress_some lowers h
  obtain ⟨denotes', low⟩ := normalText_denotes lowers denotes
  rw [normalizeAddress_normal lowers denotes' low, raw.unmapped_unmapped]
  congr 1
  cases address : raw.unmapped with
  | ipv4 n => rfl
  | ipv6 n => rw [normalText, normalText, lowers.again]

theorem DenotesText.unique (lowers : host.Lowers) {name : JsString} {x y : ParsedAddress} (hx : DenotesText host name x)
    (hy : DenotesText host name y) : x = y :=
  Option.some.inj (((parseAddress_iff lowers).mpr hx).symm.trans ((parseAddress_iff lowers).mpr hy))

theorem Denotes.unique (lowers : host.Lowers) {a : JsString} {x y : ParsedAddress} (hx : Denotes host a x)
    (hy : Denotes host a y) : x = y := by
  obtain ⟨name, raw, named, denotes, rfl⟩ := hx
  obtain ⟨name', raw', named', denotes', rfl⟩ := hy
  obtain rfl := Option.some.inj (named.symm.trans named')
  rw [denotes.unique lowers denotes']

/-- Equal normal forms are texts of one address, and texts of one address have
equal normal forms unless they are spelled apart. -/
theorem normalizeAddress_eq_iff (lowers : host.Lowers) {a b x y : JsString} (ha : normalizeAddress host a = some x)
    (hb : normalizeAddress host b = some y) :
    x = y ↔ (∃ address, Denotes host a address ∧ Denotes host b address) ∧ ¬ SpelledApart host a b := by
  obtain ⟨name, raw, named, denotes, rfl⟩ := normalizeAddress_some lowers ha
  obtain ⟨name', raw', named', denotes', rfl⟩ := normalizeAddress_some lowers hb
  have meansA : Denotes host a raw.unmapped := ⟨name, raw, named, denotes, rfl⟩
  have meansB : Denotes host b raw'.unmapped := ⟨name', raw', named', denotes', rfl⟩
  have full := normalText_denotes lowers denotes
  have full' := normalText_denotes lowers denotes'
  constructor
  · intro same
    have address : raw.unmapped = raw'.unmapped := DenotesText.unique lowers (same ▸ full.1) full'.1
    refine ⟨⟨_, meansA, address ▸ meansB⟩, ?_⟩
    rintro ⟨x, y, n, hx, hy, means, -, apart⟩
    obtain rfl := Option.some.inj (named.symm.trans hx)
    obtain rfl := Option.some.inj (named'.symm.trans hy)
    have eq := meansA.unique lowers means
    rw [← address, eq] at same
    exact apart same
  · rintro ⟨⟨address, hA, hB⟩, together⟩
    have eqA := meansA.unique lowers hA
    have eqB := meansB.unique lowers hB
    rw [eqA, eqB]
    cases address with
    | ipv4 n => rfl
    | ipv6 n =>
      by_contra apart
      exact together ⟨name, name', n, named, named', hA, hB, apart⟩

/-! ## Networks -/

theorem div_eq_iff_testBit {x y k bits : Nat} (hx : x < 2 ^ bits) (hy : y < 2 ^ bits) :
    x / 2 ^ k = y / 2 ^ k ↔ ∀ i, k ≤ i → i < bits → x.testBit i = y.testBit i := by
  constructor
  · intro same i le _
    have bit (z : Nat) : (z / 2 ^ k).testBit (i - k) = z.testBit i := by
      rw [Nat.testBit_div_two_pow, Nat.sub_add_cancel le]
    rw [← bit x, ← bit y, same]
  · intro same
    refine Nat.eq_of_testBit_eq fun i => ?_
    rw [Nat.testBit_div_two_pow, Nat.testBit_div_two_pow]
    rcases Nat.lt_or_ge (i + k) bits with less | ge
    · exact same (i + k) (Nat.le_add_left k i) less
    · have high {z : Nat} (hz : z < 2 ^ bits) : z.testBit (i + k) = false :=
        Nat.testBit_lt_two_pow (hz.trans_le (Nat.pow_le_pow_right (by decide) ge))
      rw [high hx, high hy]

theorem inNetwork_iff {bits x y : Nat} (hx : x < 2 ^ bits) (hy : y < 2 ^ bits) {size : Option Nat}
    (fits : size.getD bits ≤ bits) :
    inNetwork bits x y size = true ↔ ∀ i, bits - size.getD bits ≤ i → i < bits → x.testBit i = y.testBit i := by
  rw [← div_eq_iff_testBit hx hy]
  cases size with
  | none => simp [inNetwork]
  | some size =>
    rw [Option.getD_some] at fits ⊢
    simp only [inNetwork, Bool.or_eq_true, decide_eq_true_eq]
    refine ⟨?_, .inr⟩
    rintro (rfl | same)
    · rw [Nat.sub_zero, Nat.div_eq_of_lt hx, Nat.div_eq_of_lt hy]
    · exact same

/-- What is left of matching once the rule is taken apart. -/
def matchesNetwork (address raw : ParsedAddress) (size : Option Nat) : Bool :=
  size.all (· ≤ raw.bits) &&
    match address, ruleTarget raw size with
    | .ipv4 value, some (.ipv4 target, networkPrefix) => inNetwork 32 value target networkPrefix
    | .ipv6 value, some (.ipv6 target, networkPrefix) => inNetwork 128 value target networkPrefix
    | _, _ => false

theorem matchesAddressOrCidr_iff_text (lowers : host.Lowers) {x rule : JsString} {address : ParsedAddress}
    (denotes : DenotesText host x address) :
    matchesAddressOrCidr host x rule = true ↔ ∃ network size raw, RuleText rule network size ∧
      DenotesText host network raw ∧ matchesNetwork address raw size = true := by
  have candidate := (parseAddress_iff lowers).mpr denotes
  have empty : parseAddress host [] = none := by
    cases parsed : parseAddress host [] with
    | none => rfl
    | some raw =>
      have denotes := (parseAddress_iff lowers).mp parsed
      cases raw with
      | ipv4 n => exact absurd (DenotesIpv4.dotted denotes) List.not_mem_nil
      | ipv6 n =>
        rw [DenotesText, lowers.plain [] (List.forall_mem_nil _)] at denotes
        exact absurd denotes.colons List.not_mem_nil
  have network_ {network : JsString} {prefixText : List JsString} (short : prefixText.length ≤ 1)
      (pieces : (trim rule).splitOn slash = network :: prefixText) : matchesAddressOrCidr host x rule =
        (parseAddress host network).any fun raw =>
          prefixText.all isDigits && matchesNetwork address raw (prefixText.head?.map (numberIn 10)) := by
    unfold matchesAddressOrCidr
    rw [pieces, candidate]
    rcases prefixText with _ | ⟨digits, _ | ⟨_, _⟩⟩
    · dsimp only
      cases network with
      | nil =>
        rw [empty]
        rfl
      | cons u rest =>
        cases parseAddress host (u :: rest) with
        | none => rfl
        | some raw => rfl
    · dsimp only
      cases network with
      | nil =>
        rw [empty]
        rfl
      | cons u rest =>
        cases parseAddress host (u :: rest) with
        | none => rfl
        | some raw =>
          show (if !([digits].all fun digits => isDigits digits && numberIn 10 digits ≤ raw.bits) then false else _) = _
          by_cases decimal : isDigits digits = true
          · by_cases fits : numberIn 10 digits ≤ raw.bits
            · have allowed : (isDigits digits && decide (numberIn 10 digits ≤ raw.bits)) = true := by simp [decimal, fits]
              have short_ : ((some (numberIn 10 digits)).all fun size => decide (size ≤ raw.bits)) = true := by simpa using fits
              rw [List.all_cons, allowed, Option.any_some, List.all_cons, decimal, List.head?_cons, Option.map_some]
              unfold matchesNetwork
              rw [short_]
              rfl
            · simp [matchesNetwork, decimal, fits]
          · simp [decimal]
    · exact absurd short (by simp)
  constructor
  · intro matching
    have joined : join slash ((trim rule).splitOn slash) = trim rule := join_splitOn _
    rcases pieces : (trim rule).splitOn slash with _ | ⟨network, _ | ⟨digits, _ | ⟨_, _⟩⟩⟩
    · exact absurd pieces (List.splitOn_ne_nil slash _)
    · have short : ([] : List JsString).length ≤ 1 := Nat.zero_le 1
      rw [network_ short pieces] at matching
      rw [pieces] at joined
      obtain ⟨raw, parsed, matching⟩ := (Option.any_eq_true _ _).mp matching
      have free : slash ∉ network := not_mem_of_mem_splitOn (pieces ▸ List.mem_cons_self)
      exact ⟨network, none, raw, .address free joined.symm, (parseAddress_iff lowers).mp parsed, matching⟩
    · have short : [digits].length ≤ 1 := Nat.le_refl 1
      rw [network_ short pieces] at matching
      rw [pieces] at joined
      obtain ⟨raw, parsed, matching⟩ := (Option.any_eq_true _ _).mp matching
      have free : slash ∉ network := not_mem_of_mem_splitOn (pieces ▸ List.mem_cons_self)
      simp only [List.all_cons, List.all_nil, Bool.and_true, Bool.and_eq_true] at matching
      exact ⟨network, some (numberIn 10 digits), raw, .cidr free joined.symm matching.1,
        (parseAddress_iff lowers).mp parsed, matching.2⟩
    · unfold matchesAddressOrCidr at matching
      rw [pieces] at matching
      cases matching
  · rintro ⟨network, size, raw, text_, denotesN, matching⟩
    have parsed := (parseAddress_iff lowers).mpr denotesN
    cases text_ with
    | address free shape =>
      have pieces : (trim rule).splitOn slash = [network] := by rw [shape, List.splitOn_eq_singleton free]
      have short : ([] : List JsString).length ≤ 1 := Nat.zero_le 1
      rw [network_ short pieces, parsed]
      exact matching
    | @cidr digits free shape decimal =>
      have free' : slash ∉ digits := by
        simp only [isDigits, Bool.and_eq_true] at decimal
        exact not_mem_of_digits decimal.2 (by decide)
      have pieces : (trim rule).splitOn slash = [network, digits] := by
        rw [shape, List.splitOn_append_cons_self, List.splitOn_eq_singleton free, List.splitOn_eq_singleton free']
        rfl
      have short : [digits].length ≤ 1 := Nat.le_refl 1
      rw [network_ short pieces, parsed]
      simp only [List.all_cons, decimal, List.all_nil, Bool.and_true, Bool.true_and]
      exact matching

theorem matchesNetwork_iff {address raw : ParsedAddress} {size : Option Nat}
    (boundA : address.value < 2 ^ address.bits) (boundR : raw.value < 2 ^ raw.bits) :
    matchesNetwork address raw size = true ↔ size.getD raw.bits ≤ raw.bits ∧
      ∃ target length, Translates raw (size.getD raw.bits) target length ∧ Within address target length := by
  have fits : size.all (· ≤ raw.bits) = true ↔ size.getD raw.bits ≤ raw.bits := by
    cases size with
    | none => simp
    | some size => simp
  unfold matchesNetwork
  rw [Bool.and_eq_true, fits]
  refine and_congr_right fun fit => ?_
  cases raw with
  | ipv4 r =>
    cases address with
    | ipv4 n =>
      show inNetwork 32 n r size = true ↔ _
      rw [inNetwork_iff (show n < 2 ^ 32 from boundA) (show r < 2 ^ 32 from boundR) (show size.getD 32 ≤ 32 from fit)]
      constructor
      · exact fun same => ⟨_, _, .ipv4 r _, .ipv4 same⟩
      · rintro ⟨target, length, translates, within⟩
        cases translates
        cases within
        assumption
    | ipv6 n =>
      refine ⟨nofun, ?_⟩
      rintro ⟨target, length, translates, within⟩
      cases translates
      cases within
  | ipv6 r =>
    by_cases mapped : r / 2 ^ 32 = 0xffff
    · have rest : ruleTarget (.ipv6 r) size =
          if size.any (· < 96) then none else some (.ipv4 (r % 2 ^ 32), size.map (· - 96)) := by
        simp only [ruleTarget, ipv4FromMappedIpv6, if_pos mapped]
      rw [rest]
      have reads : size.any (· < 96) = true ↔ size.getD 128 < 96 := by
        cases size with
        | none => simp
        | some size => simp
      by_cases outside : size.any (· < 96) = true
      · rw [if_pos outside]
        refine ⟨by cases address <;> exact nofun, ?_⟩
        rintro ⟨target, length, translates, -⟩
        cases translates with
        | ipv6 plain => exact absurd mapped plain
        | mapped _ covered => exact absurd (reads.mp outside) (Nat.not_lt.mpr covered)
      · rw [if_neg outside]
        have covered : 96 ≤ size.getD 128 := Nat.le_of_not_lt fun less => outside (reads.mpr less)
        have shifted : (size.map (· - 96)).getD 32 = size.getD 128 - 96 := by
          cases size with
          | none => rfl
          | some size => rfl
        cases address with
        | ipv4 n =>
          show inNetwork 32 n (r % 2 ^ 32) (size.map (· - 96)) = true ↔ _
          have fit' : (size.map (· - 96)).getD 32 ≤ 32 := by
            rw [shifted]
            have := (show size.getD 128 ≤ 128 from fit)
            omega
          have boundN : n < 2 ^ 32 := boundA
          have boundV : r % 2 ^ 32 < 2 ^ 32 := Nat.mod_lt r (by decide)
          rw [inNetwork_iff boundN boundV fit', shifted]
          constructor
          · exact fun same => ⟨_, _, .mapped mapped covered, .ipv4 same⟩
          · rintro ⟨target, length, translates, within⟩
            cases translates with
            | ipv6 plain => exact absurd mapped plain
            | mapped =>
              cases within
              assumption
        | ipv6 n =>
          refine ⟨nofun, ?_⟩
          rintro ⟨target, length, translates, within⟩
          cases translates with
          | ipv6 plain => exact absurd mapped plain
          | mapped => cases within
    · have rest : ruleTarget (.ipv6 r) size = some (.ipv6 r, size) := by
        simp only [ruleTarget, ipv4FromMappedIpv6, if_neg mapped]
      rw [rest]
      cases address with
      | ipv4 n =>
        refine ⟨nofun, ?_⟩
        rintro ⟨target, length, translates, within⟩
        cases translates with
        | ipv6 => cases within
        | mapped range => exact absurd range mapped
      | ipv6 n =>
        show inNetwork 128 n r size = true ↔ _
        rw [inNetwork_iff (show n < 2 ^ 128 from boundA) (show r < 2 ^ 128 from boundR)
          (show size.getD 128 ≤ 128 from fit)]
        constructor
        · exact fun same => ⟨_, _, .ipv6 mapped _, .ipv6 same⟩
        · rintro ⟨target, length, translates, within⟩
          cases translates with
          | ipv6 =>
            cases within
            assumption
          | mapped range => exact absurd range mapped

/-- Matching is exact: the rule is a network of the address's family whose
leading bits are those of the address. -/
theorem matchesAddressOrCidr_covers (lowers : host.Lowers) {x rule : JsString} {address : ParsedAddress}
    (denotes : DenotesText host x address) :
    matchesAddressOrCidr host x rule = true ↔ Covers host rule address := by
  rw [matchesAddressOrCidr_iff_text lowers denotes]
  constructor
  · rintro ⟨network, size, raw, text_, denotesN, matching⟩
    obtain ⟨fits, target, length, translates, within⟩ := (matchesNetwork_iff denotes.bound denotesN.bound).mp matching
    exact ⟨network, size, raw, target, length, text_, denotesN, fits, translates, within⟩
  · rintro ⟨network, size, raw, target, length, text_, denotesN, fits, translates, within⟩
    exact ⟨network, size, raw, text_, denotesN,
      (matchesNetwork_iff denotes.bound denotesN.bound).mpr ⟨fits, target, length, translates, within⟩⟩

/-- Normalizing is idempotent, tells addresses apart and not their spellings, and
networks are matched exactly, for all texts but those that spell an IPv6 address
in different ways. -/
theorem normalizeAddress_canonical_iff (lowers : host.Lowers) {a b x y : JsString}
    (ha : normalizeAddress host a = some x) (hb : normalizeAddress host b = some y) :
    (normalizeAddress host x = some x ∧
      (x = y ↔ ∃ address, Denotes host a address ∧ Denotes host b address) ∧
      ∀ address, Denotes host a address → ∀ rule, matchesAddressOrCidr host x rule = true ↔ Covers host rule address) ↔
    ¬ SpelledApart host a b := by
  have canonical := normalizeAddress_eq_iff lowers ha hb
  constructor
  · rintro ⟨-, same, -⟩ ⟨nx, ny, n, hx, hy, meansA, meansB, apart⟩
    exact (canonical.mp (same.mpr ⟨_, meansA, meansB⟩)).2 ⟨nx, ny, n, hx, hy, meansA, meansB, apart⟩
  · intro together
    refine ⟨normalizeAddress_again lowers ha, ⟨fun same => (canonical.mp same).1, fun same => canonical.mpr ⟨same, together⟩⟩,
      fun address means rule => ?_⟩
    obtain ⟨name, raw, named, denotes, rfl⟩ := normalizeAddress_some lowers ha
    rw [means.unique lowers ⟨name, raw, named, denotes, rfl⟩]
    exact matchesAddressOrCidr_covers lowers (normalText_denotes lowers denotes).1

def asciiLower : CaseMapping :=
  ⟨id, List.map fun u => if unit 'A' ≤ u ∧ u ≤ unit 'Z' then u + 32 else u, id⟩

theorem asciiLower_lowers : asciiLower.Lowers where
  again s := by
    simp only [asciiLower, List.map_map]
    refine List.map_congr_left fun u _ => ?_
    rw [Function.comp]
    split
    next capital =>
      have low : unit 'A' ≤ u := capital.1
      have high : u ≤ unit 'Z' := capital.2
      rw [UInt16.le_iff_toNat_le] at low high
      have a : (unit 'A').toNat = 65 := rfl
      have z : (unit 'Z').toNat = 90 := rfl
      refine if_neg fun again => ?_
      have small : u + 32 ≤ unit 'Z' := again.2
      rw [UInt16.le_iff_toNat_le, UInt16.toNat_add] at small
      have three : (32 : UInt16).toNat = 32 := rfl
      omega
    next => rfl
  plain s low := by
    simp only [asciiLower]
    conv_rhs => rw [← List.map_id s]
    exact List.map_congr_left fun u mem => if_neg (low u mem).2

/-- A bracketed peer and the mapped one are the same. -/
theorem mapped_bracketed_same :
    (normalizeAddress asciiLower (text "10.0.0.1") = some (text "10.0.0.1") ∧
      (text "10.0.0.1" = text "10.0.0.1" ↔
        ∃ address, Denotes asciiLower (text "[::FFFF:10.0.0.1]:80") address ∧ Denotes asciiLower (text "10.0.0.1:443") address) ∧
      ∀ address, Denotes asciiLower (text "[::FFFF:10.0.0.1]:80") address →
        ∀ rule, matchesAddressOrCidr asciiLower (text "10.0.0.1") rule = true ↔ Covers asciiLower rule address) ↔
      ¬ SpelledApart asciiLower (text "[::FFFF:10.0.0.1]:80") (text "10.0.0.1:443") :=
  normalizeAddress_canonical_iff asciiLower_lowers (by decide +kernel) (by decide +kernel)

/-- Loopback written out is another address to the code. -/
theorem loopback_spelled_apart :
    normalizeAddress asciiLower (text "::1") = some (text "::1") ∧
      normalizeAddress asciiLower (text "0:0:0:0:0:0:0:1") = some (text "0:0:0:0:0:0:0:1") ∧
      ¬ (text "::1" = text "0:0:0:0:0:0:0:1" ↔
        ∃ address, Denotes asciiLower (text "::1") address ∧ Denotes asciiLower (text "0:0:0:0:0:0:0:1") address) := by
  have lowers := asciiLower_lowers
  refine ⟨by decide +kernel, by decide +kernel, fun same => ?_⟩
  have short : Denotes asciiLower (text "::1") (.ipv6 1) :=
    ⟨_, .ipv6 1, rfl, (parseAddress_iff lowers).mp (by decide +kernel), by decide⟩
  have long : Denotes asciiLower (text "0:0:0:0:0:0:0:1") (.ipv6 1) :=
    ⟨_, .ipv6 1, rfl, (parseAddress_iff lowers).mp (by decide +kernel), by decide⟩
  exact absurd (same.mpr ⟨_, short, long⟩) (by decide)

end Fluo.Http
