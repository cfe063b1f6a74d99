import Fluo.Http.Cookies
import Fluo.Http.AddressText
import Fluo.Http.Revalidation

/-!
# Cookies survive the round trip

A `Set-Cookie` field is its pair and the requested attributes and nothing else, and
the pairs of several fields, sent back, are read as the cookies that were set.
-/

namespace Fluo.Http

open Js Code

-- What holds of each unit of a text is decided along the text, not over all units.
local instance (priority := 2000) cookieUnits (p : UInt16 → Prop) [DecidablePred p] (s : JsString) :
    Decidable (∀ u ∈ s, p u) :=
  List.decidableBAll p s

/-! ## What a field should say -/

/-- An attribute with its value, if it has one. -/
abbrev Attribute := JsString × Option JsString

def attributeText : Attribute → JsString
  | (name, none) => name
  | (name, some value) => name ++ unit '=' :: value

def maxAgeAttribute : OptionValue → List Attribute
  | .integer n => [(text "Max-Age", some (decimal n))]
  | _ => []

def expiresAttribute : OptionValue → List Attribute
  | .date (some time) => [(text "Expires", some (toUTCString time))]
  | _ => []

def textAttribute (name : JsString) : OptionValue → List Attribute
  | .string s => [(name, some s)]
  | _ => []

def flagAttribute (name : JsString) (value : OptionValue) : List Attribute :=
  if value = .boolean true then [(name, none)] else []

def sameSiteAttribute (value : OptionValue) : List Attribute :=
  if value = .string (text "lax") then [(text "SameSite", some (text "Lax"))]
  else if value = .string (text "strict") then [(text "SameSite", some (text "Strict"))]
  else if value = .string (text "none") then [(text "SameSite", some (text "None"))]
  else []

def requestedAttributes (options : CookieOptionValues) : List Attribute :=
  maxAgeAttribute options.maxAgeSeconds ++ expiresAttribute options.expires ++ textAttribute (text "Path") options.path ++
    textAttribute (text "Domain") options.domain ++ flagAttribute (text "Secure") options.secure ++
    flagAttribute (text "HttpOnly") options.httpOnly ++ sameSiteAttribute options.sameSite

/-- The checks that options pass, whatever the cookie. -/
structure CookieOptionValues.Valid (options : CookieOptionValues) : Prop where
  httpOnly : validateOptionalBoolean (text "httpOnly") options.httpOnly = .ok ()
  secure : validateOptionalBoolean (text "secure") options.secure = .ok ()
  maxAge : validateMaxAge options.maxAgeSeconds = .ok ()
  domain : validateDomain options.domain = .ok ()
  path : validatePath options.path = .ok ()
  sameSite : ∃ s, normalizeSameSite options.sameSite options.secure = .ok s
  expires : options.expires = .undefined ∨ ∃ expiry, formatExpiry options.expires = .ok expiry

/-! ## The serializer -/

theorem maxAge_part {v : OptionValue} (h : validateMaxAge v = .ok ()) :
    optionalPart (text "Max-Age=") v = (maxAgeAttribute v).map attributeText := by
  cases v with
  | undefined => rfl
  | integer n => rfl
  | _ => cases h

theorem expires_part {v : OptionValue} {parts : List JsString} :
    expiresPart v = .ok parts ↔
      (v = .undefined ∨ ∃ expiry, formatExpiry v = .ok expiry) ∧ parts = (expiresAttribute v).map attributeText := by
  rw [expiresPart]
  by_cases absent : v = .undefined
  · rw [if_pos absent, absent]
    exact ⟨fun h => ⟨.inl rfl, (Except.ok.inj h).symm⟩, fun h => congrArg Except.ok h.2.symm⟩
  · rw [if_neg absent, or_iff_right absent]
    cases v with
    | date time =>
      cases time with
      | none => exact ⟨nofun, by rintro ⟨⟨_, h⟩, -⟩; cases h⟩
      | some time =>
        rw [formatExpiry, expiresAttribute]
        generalize toUTCString time = written
        split
        · exact ⟨nofun, by rintro ⟨⟨_, h⟩, -⟩; cases h⟩
        · exact ⟨fun h => ⟨⟨written, rfl⟩, (Except.ok.inj h).symm⟩, fun h => congrArg Except.ok h.2.symm⟩
    | undefined => exact absurd rfl absent
    | _ => exact ⟨nofun, by rintro ⟨⟨_, h⟩, -⟩; cases h⟩

theorem text_part {v : OptionValue} (name : JsString) (h : v = .undefined ∨ ∃ s, v = .string s) :
    optionalPart (name ++ text "=") v = (textAttribute name v).map attributeText := by
  rcases h with rfl | ⟨s, rfl⟩
  · rfl
  · exact congrArg (· :: []) (List.append_assoc name (text "=") s)

theorem validatePath_kind {v : OptionValue} (h : validatePath v = .ok ()) : v = .undefined ∨ ∃ s, v = .string s := by
  cases v with
  | undefined => exact .inl rfl
  | string s => exact .inr ⟨s, rfl⟩
  | _ => cases h

theorem validateDomain_kind {v : OptionValue} (h : validateDomain v = .ok ()) : v = .undefined ∨ ∃ s, v = .string s := by
  cases v with
  | undefined => exact .inl rfl
  | string s => exact .inr ⟨s, rfl⟩
  | _ => cases h

theorem flag_part (name : JsString) (v : OptionValue) : flagPart name v = (flagAttribute name v).map attributeText := by
  rw [flagPart, flagAttribute]
  split <;> rfl

theorem sameSite_part {v secure : OptionValue} {s : Option JsString} (h : normalizeSameSite v secure = .ok s) :
    sameSitePart s = (sameSiteAttribute v).map attributeText := by
  rw [normalizeSameSite] at h
  by_cases absent : v = .undefined
  · rw [if_pos absent] at h
    cases h
    rw [absent]
    rfl
  rw [if_neg absent] at h
  rw [sameSiteAttribute]
  split at h
  next lax =>
    cases h
    rw [if_pos lax]
    rfl
  next lax =>
    rw [if_neg lax]
    split at h
    next strict =>
      cases h
      rw [if_pos strict]
      rfl
    next strict =>
      rw [if_neg strict]
      split at h
      next none_ =>
        rw [if_pos none_]
        split at h
        · cases h
        · cases h
          rfl
      · cases h

theorem bind_eq_ok {ε α β : Type} {x : Except ε α} {f : α → Except ε β} {r : β} :
    (x >>= f) = .ok r ↔ ∃ a, x = .ok a ∧ f a = .ok r := by
  cases x with
  | error e => exact ⟨nofun, by rintro ⟨a, h, -⟩; cases h⟩
  | ok a => exact ⟨fun h => ⟨a, rfl, h⟩, by rintro ⟨b, same, h⟩; cases same; exact h⟩

theorem encodedOrError_iff {value encoded : JsString} :
    encodedOrError value = .ok encoded ↔ encodeURIComponent value = some encoded := by
  rw [encodedOrError]
  split
  next found => rw [found, Except.ok.injEq, Option.some.injEq]
  next missing => exact ⟨nofun, fun h => by rw [h] at missing; cases missing⟩

/-- A field is written for a valid name, a value without unpaired surrogates and
valid options, and consists of the pair and the requested attributes. -/
theorem serializeCookie_iff {name value field : JsString} {options : CookieOptionValues} :
    serializeCookie name value options = .ok field ↔
      isCookieName name = true ∧ options.Valid ∧ ∃ encoded, encodeURIComponent value = some encoded ∧
        field = (text "; ").intercalate
          ((name ++ text "=" ++ encoded) :: (requestedAttributes options).map attributeText) := by
  have parts (valid : options.Valid) {s : Option JsString} (site : normalizeSameSite options.sameSite options.secure = .ok s)
      (pair : JsString) : [pair] ++ optionalPart (text "Max-Age=") options.maxAgeSeconds ++
        (expiresAttribute options.expires).map attributeText ++ optionalPart (text "Path=") options.path ++
        optionalPart (text "Domain=") options.domain ++ flagPart (text "Secure") options.secure ++
        flagPart (text "HttpOnly") options.httpOnly ++ sameSitePart s =
      pair :: (requestedAttributes options).map attributeText := by
    have path := text_part (text "Path") (validatePath_kind valid.path)
    have domain := text_part (text "Domain") (validateDomain_kind valid.domain)
    rw [show text "Path=" = text "Path" ++ text "=" from rfl, show text "Domain=" = text "Domain" ++ text "=" from rfl, path,
      domain, maxAge_part valid.maxAge, flag_part, flag_part, sameSite_part site]
    simp only [requestedAttributes, List.map_append, List.append_assoc, List.cons_append, List.nil_append]
  have name_ : validateCookieName name = .ok () ↔ isCookieName name = true := by
    rw [validateCookieName]
    split
    next h => exact ⟨fun _ => h, fun _ => rfl⟩
    next h => exact ⟨nofun, fun h' => absurd h' h⟩
  simp only [serializeCookie, bind_eq_ok, encodedOrError_iff, expires_part]
  constructor
  · rintro ⟨_, nameOk, _, httpOnly, _, secure, _, maxAge, _, domain, _, path, s, site, encoded, enc, _, ⟨expires, rfl⟩, ok⟩
    have valid : options.Valid := ⟨httpOnly, secure, maxAge, domain, path, ⟨s, site⟩, expires⟩
    refine ⟨name_.mp nameOk, valid, encoded, enc, ?_⟩
    rw [← parts valid site]
    exact (Except.ok.inj ok).symm
  · rintro ⟨nameOk, valid, encoded, enc, rfl⟩
    obtain ⟨s, site⟩ := valid.sameSite
    refine ⟨(), name_.mpr nameOk, (), valid.httpOnly, (), valid.secure, (), valid.maxAge, (), valid.domain, (), valid.path, s,
      site, encoded, enc, _, ⟨valid.expires, rfl⟩, ?_⟩
    rw [parts valid site]

/-! ## Printable texts -/

/-- Nothing in a text ends an attribute or controls anything. -/
def Clean (s : JsString) : Prop := ∀ u ∈ s, 32 ≤ u.toNat ∧ u.toNat ≤ 126 ∧ u ≠ unit ';'

instance (s : JsString) : Decidable (Clean s) := inferInstanceAs (Decidable (∀ u ∈ s, _))

theorem Clean.append {s t : JsString} (hs : Clean s) (ht : Clean t) : Clean (s ++ t) := fun u mem =>
  (List.mem_append.mp mem).elim (hs u) (ht u)

theorem clean_digits {s : JsString} (h : s.all isDigit = true) : Clean s := by
  intro u mem
  have digit := List.all_eq_true.mp h u mem
  simp only [isDigit, Bool.and_eq_true, decide_eq_true_eq, UInt16.le_iff_toNat_le] at digit
  have low : 48 ≤ u.toNat := digit.1
  have high : u.toNat ≤ 57 := digit.2
  refine ⟨by omega, by omega, ?_⟩
  rintro rfl
  exact absurd high (by decide)

theorem clean_decimal (n : Int) : Clean (decimal n) := by
  rw [decimal]
  refine .append ?_ (clean_digits (digitsIn_all (by decide) (fun d less => digitChar_decimal less) _))
  split <;> decide

theorem clean_toUTCString (time : Int) : Clean (toUTCString time) := by
  have padded (width n : Nat) : Clean (zeroPadded width n) := clean_digits (zeroPadded_digits width n)
  have name {names : List JsString} (all : ∀ s ∈ names, Clean s) (i : Nat) : Clean (names.getD i []) := by
    rw [List.getD_eq_getElem?_getD]
    cases found : names[i]? with
    | none => exact nofun
    | some s => exact all s (List.mem_of_getElem? found)
  rw [toUTCString]
  refine .append (.append (.append (.append (.append (.append (.append (.append (.append (.append (.append (.append (.append
    (.append ?_ ?_) ?_) ?_) ?_) ?_) ?_) ?_) ?_) ?_) ?_) ?_) ?_) ?_) ?_
  · exact name (by decide) _
  all_goals first
    | exact padded _ _
    | exact name (by decide) _
    | decide
    | (split <;> decide)

theorem clean_path {path : JsString} (h : validatePath (.string path) = .ok ()) : Clean path := by
  rw [validatePath] at h
  split at h
  · cases h
  split at h
  · cases h
  next free =>
    intro u mem
    rw [List.any_eq_true, not_exists] at free
    have bounds := not_and.mp (free u) mem
    simp only [Bool.or_eq_true, decide_eq_true_eq, not_or] at bounds
    refine ⟨by omega, by omega, ?_⟩
    rintro rfl
    exact bounds.1.2 rfl

theorem isAlphanumeric_clean {u : UInt16} (h : isAlphanumeric u = true) : 48 ≤ u.toNat ∧ u.toNat ≤ 122 ∧ u ≠ unit ';' := by
  simp only [isAlphanumeric, Bool.or_eq_true, Bool.and_eq_true, decide_eq_true_eq, UInt16.le_iff_toNat_le] at h
  have zero : (unit '0').toNat = 48 := rfl
  have nine : (unit '9').toNat = 57 := rfl
  have capA : (unit 'A').toNat = 65 := rfl
  have capZ : (unit 'Z').toNat = 90 := rfl
  have smallA : (unit 'a').toNat = 97 := rfl
  have smallZ : (unit 'z').toNat = 122 := rfl
  refine ⟨by omega, by omega, ?_⟩
  rintro rfl
  have semicolon : (unit ';').toNat = 59 := rfl
  omega

theorem clean_domain {domain : JsString} (h : validateDomain (.string domain) = .ok ()) : Clean domain := by
  rw [validateDomain] at h
  split at h
  · cases h
  next free =>
    rw [not_or, not_or, Bool.not_eq_false] at free
    have host : Clean (withoutDot domain) := by
      intro u mem
      have whole : join (unit '.') ((withoutDot domain).splitOn (unit '.')) = withoutDot domain := join_splitOn _
      rw [← whole] at mem
      rcases mem_join mem with rfl | ⟨label, piece, inside⟩
      · decide
      · have valid := List.all_eq_true.mp free.2.2 label piece
        simp only [isDomainLabel, Bool.and_eq_true] at valid
        rcases Bool.or_eq_true_iff.mp (List.all_eq_true.mp valid.1.1.2 u inside) with letter | hyphen
        · have bounds := isAlphanumeric_clean letter
          exact ⟨by omega, by omega, bounds.2.2⟩
        · rw [of_decide_eq_true hyphen]
          decide
    rw [withoutDot] at host
    split at host
    next dot =>
      cases domain with
      | nil => exact List.forall_mem_nil _
      | cons v rest =>
        rw [Option.some.inj dot]
        exact fun u mem => (List.mem_cons.mp mem).elim (by rintro rfl; decide) (host u)
    · exact host

theorem clean_attribute {name : JsString} (cleanName : Clean name) {value : JsString} (cleanValue : Clean value) :
    Clean (attributeText (name, some value)) :=
  cleanName.append fun u mem => (List.mem_cons.mp mem).elim (by rintro rfl; decide) (cleanValue u)

theorem clean_requestedAttributes {options : CookieOptionValues} (valid : options.Valid) :
    ∀ a ∈ requestedAttributes options, Clean (attributeText a) := by
  intro a mem
  rw [requestedAttributes] at mem
  have texts {name : JsString} {v : OptionValue} (cleanName : Clean name) (cleanValue : ∀ s, v = .string s → Clean s)
      (inside : a ∈ textAttribute name v) : Clean (attributeText a) := by
    cases v with
    | string s =>
      rw [List.mem_singleton.mp inside]
      exact clean_attribute cleanName (cleanValue s rfl)
    | _ => cases inside
  have flags {name : JsString} {v : OptionValue} (cleanName : Clean name) (inside : a ∈ flagAttribute name v) :
      Clean (attributeText a) := by
    rw [flagAttribute] at inside
    split at inside
    · rw [List.mem_singleton.mp inside]
      exact cleanName
    · cases inside
  rcases List.mem_append.mp mem with mem | sameSite
  · rcases List.mem_append.mp mem with mem | httpOnly
    · rcases List.mem_append.mp mem with mem | secure
      · rcases List.mem_append.mp mem with mem | domain
        · rcases List.mem_append.mp mem with mem | path
          · rcases List.mem_append.mp mem with maxAge | expires
            · cases v : options.maxAgeSeconds with
              | integer n =>
                rw [v] at maxAge
                rw [List.mem_singleton.mp maxAge]
                exact clean_attribute (by decide) (clean_decimal n)
              | _ =>
                rw [v] at maxAge
                cases maxAge
            · cases v : options.expires with
              | date time =>
                rw [v] at expires
                cases time with
                | none => cases expires
                | some time =>
                  rw [List.mem_singleton.mp expires]
                  exact clean_attribute (by decide) (clean_toUTCString time)
              | _ =>
                rw [v] at expires
                cases expires
          · exact texts (by decide) (fun s same => clean_path (same ▸ valid.path)) path
        · exact texts (by decide) (fun s same => clean_domain (same ▸ valid.domain)) domain
      · exact flags (by decide) secure
    · exact flags (by decide) httpOnly
  · rw [sameSiteAttribute] at sameSite
    split at sameSite
    · rw [List.mem_singleton.mp sameSite]
      decide
    split at sameSite
    · rw [List.mem_singleton.mp sameSite]
      decide
    split at sameSite
    · rw [List.mem_singleton.mp sameSite]
      decide
    · cases sameSite

/-! ## The pair -/

theorem isTokenUnit_visible {u : UInt16} (h : isTokenUnit u = true) :
    33 ≤ u.toNat ∧ u.toNat ≤ 126 ∧ u ≠ unit ';' ∧ u ≠ unit '=' := by
  rcases Bool.or_eq_true_iff.mp h with letter | mark
  · have bounds := isAlphanumeric_clean letter
    refine ⟨by omega, by omega, bounds.2.2, ?_⟩
    rintro rfl
    exact absurd letter (by decide)
  · have all : ∀ u ∈ text "!#$%&'*+-.^_\x60|~", 33 ≤ u.toNat ∧ u.toNat ≤ 126 ∧ u ≠ unit ';' ∧ u ≠ unit '=' := by decide
    exact all u (of_decide_eq_true mark)

theorem encoded_visible {value encoded : JsString} (h : encodeURIComponent value = some encoded) :
    ∀ u ∈ encoded, 33 ≤ u.toNat ∧ u.toNat ≤ 126 ∧ u ≠ unit ';' := by
  have kept : ∀ n < 128, isUnreserved (Char.ofNat n) = true →
      33 ≤ (unit (Char.ofNat n)).toNat ∧ (unit (Char.ofNat n)).toNat ≤ 126 ∧ unit (Char.ofNat n) ≠ unit ';' := by
    decide
  intro u mem
  rcases mem_encodeURIComponent h mem with rfl | ⟨c, unreserved, rfl⟩
  · decide
  · have char := kept c.toNat (unreserved_lt unreserved)
    rw [Char.ofNat_toNat] at char
    exact char unreserved

theorem intercalate_eq_join (x : JsString) (l : List JsString) :
    (text "; ").intercalate (x :: l) = join (unit ';') (x :: l.map (unit ' ' :: ·)) := by
  induction l generalizing x with
  | nil => simp [List.intercalate, join]
  | cons y l ih =>
    have next := ih y
    have front : (text "; ").intercalate (x :: y :: l) = x ++ text "; " ++ (text "; ").intercalate (y :: l) := by
      simp [List.intercalate]
    rw [front, next]
    cases l with
    | nil => simp [join, text]
    | cons z l => simp [join, text]

theorem splitOn_intercalate {x : JsString} {l : List JsString} (hx : unit ';' ∉ x) (hl : ∀ y ∈ l, unit ';' ∉ y) :
    ((text "; ").intercalate (x :: l)).splitOn (unit ';') = x :: l.map (unit ' ' :: ·) := by
  rw [intercalate_eq_join, splitOn_join (List.cons_ne_nil _ _)]
  intro y mem
  rcases List.mem_cons.mp mem with rfl | mem
  · exact hx
  · obtain ⟨z, inside, rfl⟩ := List.mem_map.mp mem
    exact fun semicolon => (List.mem_cons.mp semicolon).elim (by decide) (hl z inside)

/-! ## Several cookies -/

structure Cookie where
  name : JsString
  value : JsString
  options : CookieOptionValues

def setCookies (response : ResponseHeaders) (cookies : List Cookie) : Except CookieError ResponseHeaders :=
  cookies.foldlM (fun response c => setCookie response c.name c.value c.options) response

/-- Options that `setCookie` takes with some cookie. -/
def CookieOptionValues.Accepted (options : CookieOptionValues) : Prop :=
  ∃ response name value written, setCookie response name value options = .ok written

/-- A field is one pair and the requested attributes. -/
def Written (c : Cookie) (field : JsString) : Prop :=
  (∀ u ∈ field, 32 ≤ u.toNat ∧ u.toNat ≤ 126) ∧
    ∃ encoded, encodeURIComponent c.value = some encoded ∧
      field.splitOn (unit ';') = (c.name ++ unit '=' :: encoded) ::
        (requestedAttributes c.options).map fun a => unit ' ' :: attributeText a

/-- What a client returns: the part of each field before the first semicolon. -/
def sentBack (fields : List JsString) : JsString :=
  (text "; ").intercalate (fields.map fun field => (field.splitOn (unit ';')).headD [])

theorem setCookie_ok {response written : ResponseHeaders} {name value : JsString} {options : CookieOptionValues} :
    setCookie response name value options = .ok written ↔
      ∃ field, serializeCookie name value options = .ok field ∧ written = response ++ [(text "Set-Cookie", field)] := by
  rw [setCookie]
  cases serializeCookie name value options with
  | error e => exact ⟨nofun, by rintro ⟨field, h, -⟩; cases h⟩
  | ok field =>
    refine ⟨fun h => ⟨field, rfl, (Except.ok.inj h).symm⟩, ?_⟩
    rintro ⟨_, same, rfl⟩
    cases same
    rfl

theorem CookieOptionValues.Accepted.valid {options : CookieOptionValues} (h : options.Accepted) : options.Valid := by
  obtain ⟨response, name, value, written, ok⟩ := h
  obtain ⟨field, serialized, -⟩ := setCookie_ok.mp ok
  exact (serializeCookie_iff.mp serialized).2.1

theorem serializeCookie_written {c : Cookie} {field : JsString} (h : serializeCookie c.name c.value c.options = .ok field) :
    Written c field := by
  obtain ⟨name, valid, encoded, enc, rfl⟩ := serializeCookie_iff.mp h
  have token := List.all_eq_true.mp (Bool.and_eq_true_iff.mp name).2
  have pair : Clean (c.name ++ text "=" ++ encoded) := by
    refine .append (.append (fun u mem => ?_) (by decide)) fun u mem => ?_
    · have bounds := isTokenUnit_visible (token u mem)
      exact ⟨by omega, bounds.2.1, bounds.2.2.1⟩
    · have bounds := encoded_visible enc u mem
      exact ⟨by omega, bounds.2.1, bounds.2.2⟩
  have attributes : ∀ y ∈ (requestedAttributes c.options).map attributeText, Clean y := by
    intro y mem
    obtain ⟨a, inside, rfl⟩ := List.mem_map.mp mem
    exact clean_requestedAttributes valid a inside
  refine ⟨fun u mem => ?_, encoded, enc, ?_⟩
  · rw [intercalate_eq_join] at mem
    rcases mem_join mem with rfl | ⟨part, inside, unit_⟩
    · decide
    · rcases List.mem_cons.mp inside with rfl | inside
      · exact ⟨(pair u unit_).1, (pair u unit_).2.1⟩
      · obtain ⟨y, wanted, rfl⟩ := List.mem_map.mp inside
        rcases List.mem_cons.mp unit_ with rfl | unit_
        · decide
        · exact ⟨(attributes y wanted u unit_).1, (attributes y wanted u unit_).2.1⟩
  · rw [splitOn_intercalate (fun mem => (pair _ mem).2.2 rfl) fun y mem inside => (attributes y mem _ inside).2.2 rfl,
      List.map_map, List.append_assoc]
    rfl

/-- A pair is read as the cookie it was written for. -/
theorem cookiePair_written {name value encoded : JsString} (token : isCookieName name = true)
    (enc : encodeURIComponent value = some encoded) :
    trim (name ++ unit '=' :: encoded) = name ++ unit '=' :: encoded ∧
      cookiePair (name ++ unit '=' :: encoded) = (name, value) := by
  have units := List.all_eq_true.mp (Bool.and_eq_true_iff.mp token).2
  have plainName : ∀ u ∈ name, isWhiteSpace u = false := fun u mem =>
    isWhiteSpace_visible (isTokenUnit_visible (units u mem)).1 (isTokenUnit_visible (units u mem)).2.1
  have plainValue : ∀ u ∈ encoded, isWhiteSpace u = false := fun u mem =>
    isWhiteSpace_visible (encoded_visible enc u mem).1 (encoded_visible enc u mem).2.1
  have noSign : ∀ u ∈ name, decide (u ≠ unit '=') = true := fun u mem =>
    decide_eq_true (isTokenUnit_visible (units u mem)).2.2.2
  constructor
  · refine trim_self fun u mem => ?_
    rcases List.mem_append.mp mem with inName | mem
    · exact plainName u inName
    · rcases List.mem_cons.mp mem with rfl | inValue
      · decide
      · exact plainValue u inValue
  · have first : indexOf [unit '='] (name ++ unit '=' :: encoded) = some name.length := by
      rw [indexOf_unit, if_pos (List.mem_append_right _ List.mem_cons_self), List.takeWhile_append_of_pos noSign,
        List.takeWhile_cons_of_neg (by simp), List.append_nil]
    simp only [cookiePair, first]
    rw [List.take_left' rfl, ← List.drop_drop, List.drop_left' rfl, List.drop_one, List.tail_cons, trim_self plainName,
      trim_self plainValue, decodeCookieValue, decodeURIComponent_encodeURIComponent enc]
    rfl

theorem fromEntries_get {entries : List (JsString × JsString)} (distinct : (entries.map Prod.fst).Nodup) (name value : JsString) :
    (fromEntries entries).get name = some value ↔ (name, value) ∈ entries := by
  rw [fromEntries]
  induction entries using List.reverseRecOn with
  | nil => simp
  | append_singleton entries e ih =>
    rw [List.map_append, List.nodup_append] at distinct
    rw [List.foldl_append, List.foldl_cons, List.foldl_nil, OrderedMap.get_set, List.mem_append, List.mem_singleton]
    by_cases same : name = e.1
    · have fresh : (name, value) ∉ entries := fun mem =>
        distinct.2.2 name (List.mem_map_of_mem mem) e.1 List.mem_cons_self same
      rw [if_pos same, Option.some.injEq, or_iff_right fresh]
      exact ⟨fun eq => Prod.ext same eq.symm, fun eq => (congrArg Prod.snd eq).symm⟩
    · rw [if_neg same, ih distinct.1]
      exact (or_iff_left fun eq => same (congrArg Prod.fst eq)).symm

theorem setCookies_ok {cookies : List Cookie} (ok : ∀ c ∈ cookies, ∃ field, serializeCookie c.name c.value c.options = .ok field)
    (response : ResponseHeaders) :
    ∃ fields : List JsString, setCookies response cookies = .ok (response ++ fields.map (text "Set-Cookie", ·)) ∧
      List.Forall₂ Written cookies fields := by
  induction cookies generalizing response with
  | nil => exact ⟨[], congrArg Except.ok (List.append_nil response).symm, .nil⟩
  | cons c cookies ih =>
    obtain ⟨field, serialized⟩ := ok c List.mem_cons_self
    obtain ⟨fields, rest, written⟩ := ih (fun d mem => ok d (List.mem_cons_of_mem _ mem)) (response ++ [(text "Set-Cookie", field)])
    refine ⟨field :: fields, ?_, .cons (serializeCookie_written serialized) written⟩
    rw [setCookies, List.foldlM_cons, setCookie_ok.mpr ⟨field, serialized, rfl⟩]
    refine Eq.trans rest ?_
    rw [List.append_assoc]
    rfl

def pairOf (c : Cookie) : JsString := c.name ++ unit '=' :: (encodeURIComponent c.value).getD []

theorem written_pairs {cookies : List Cookie} {fields : List JsString} (h : List.Forall₂ Written cookies fields) :
    fields.map (fun field => (field.splitOn (unit ';')).headD []) = cookies.map pairOf := by
  induction h with
  | nil => rfl
  | cons written _ ih =>
    obtain ⟨-, encoded, enc, split_⟩ := written
    rw [List.map_cons, List.map_cons, ih, split_, pairOf, enc]
    rfl

/-- Both parsers read the pairs that are sent back as the cookies. -/
theorem cookiesOf_pairs {cookies : List Cookie} (names : ∀ c ∈ cookies, isCookieName c.name = true)
    (values : ∀ c ∈ cookies, (codePoints c.value).isSome = true) :
    cookiesOf ((text "; ").intercalate (cookies.map pairOf)) = fromEntries (cookies.map fun c => (c.name, c.value)) := by
  have pair {c : Cookie} (mem : c ∈ cookies) : trim (pairOf c) = pairOf c ∧ cookiePair (pairOf c) = (c.name, c.value) ∧
      unit ';' ∉ pairOf c ∧ pairOf c ≠ [] := by
    obtain ⟨cs, points⟩ := Option.isSome_iff_exists.mp (values c mem)
    have enc : encodeURIComponent c.value = some (cs.flatMap encodeChar) := by rw [encodeURIComponent, points]; rfl
    have read := cookiePair_written (names c mem) enc
    have whole : pairOf c = c.name ++ unit '=' :: cs.flatMap encodeChar := by rw [pairOf, enc]; rfl
    rw [whole]
    refine ⟨read.1, read.2, fun inside => ?_, List.append_ne_nil_of_right_ne_nil _ (List.cons_ne_nil _ _)⟩
    have token := List.all_eq_true.mp (Bool.and_eq_true_iff.mp (names c mem)).2
    rcases List.mem_append.mp inside with inName | inside
    · exact (isTokenUnit_visible (token _ inName)).2.2.1 rfl
    · rcases List.mem_cons.mp inside with same | inValue
      · exact absurd same (by decide)
      · exact (encoded_visible enc _ inValue).2.2 rfl
  cases cookies with
  | nil => rfl
  | cons c cookies =>
    have header : (text "; ").intercalate ((c :: cookies).map pairOf) ≠ [] := by
      rw [List.map_cons, intercalate_eq_join]
      have first := (pair List.mem_cons_self).2.2.2
      cases cookies with
      | nil => exact first
      | cons d cookies => exact List.append_ne_nil_of_left_ne_nil first _
    have pieces := splitOn_intercalate (pair List.mem_cons_self).2.2.1 fun y mem => by
      obtain ⟨d, inside, rfl⟩ := List.mem_map.mp mem
      exact (pair (List.mem_cons_of_mem c inside)).2.2.1
    have trimmed : (pairOf c :: (cookies.map pairOf).map (unit ' ' :: ·)).map trim = (c :: cookies).map pairOf := by
      rw [List.map_cons, (pair List.mem_cons_self).1, List.map_map, List.map_map, List.map_cons]
      refine congrArg (pairOf c :: ·) (List.map_congr_left fun d mem => ?_)
      have blank : Blank [unit ' '] := by
        intro u inside
        rw [List.mem_singleton.mp inside]
        decide
      exact (trim_append_left blank (pairOf d)).trans (pair (List.mem_cons_of_mem c mem)).1
    have kept : ((c :: cookies).map pairOf).filter (· ≠ []) = (c :: cookies).map pairOf := by
      refine List.filter_eq_self.mpr fun y mem => ?_
      obtain ⟨d, inside, rfl⟩ := List.mem_map.mp mem
      exact decide_eq_true (pair inside).2.2.2
    rw [cookiesOf, if_neg header]
    rw [List.map_cons, pieces, trimmed, kept, List.map_map]
    exact congrArg fromEntries (List.map_congr_left fun d mem => (pair mem).2.1)

/-- Cookies with distinct names are written as one field each, with exactly the
requested attributes, and come back with their names and values. -/
theorem cookies_survive {cookies : List Cookie} (distinct : (cookies.map (·.name)).Nodup)
    (names : ∀ c ∈ cookies, isCookieName c.name = true) (values : ∀ c ∈ cookies, (codePoints c.value).isSome = true)
    (accepted : ∀ c ∈ cookies, c.options.Accepted) (response : ResponseHeaders) :
    ∃ fields : List JsString, setCookies response cookies = .ok (response ++ fields.map (text "Set-Cookie", ·)) ∧
      List.Forall₂ Written cookies fields ∧
      (∀ name value, (webParseCookieHeader (some (sentBack fields))).get name = some value ↔
        ∃ c ∈ cookies, c.name = name ∧ c.value = value) ∧
      (∀ name value, (nodeParseCookieHeader (.single (sentBack fields))).get name = some value ↔
        ∃ c ∈ cookies, c.name = name ∧ c.value = value) := by
  have serialized : ∀ c ∈ cookies, ∃ field, serializeCookie c.name c.value c.options = .ok field := by
    intro c mem
    obtain ⟨cs, points⟩ := Option.isSome_iff_exists.mp (values c mem)
    have enc : encodeURIComponent c.value = some (cs.flatMap encodeChar) := by rw [encodeURIComponent, points]; rfl
    exact ⟨_, serializeCookie_iff.mpr ⟨names c mem, (accepted c mem).valid, _, enc, rfl⟩⟩
  obtain ⟨fields, ok, written⟩ := setCookies_ok serialized response
  have read (name value : JsString) : (cookiesOf (sentBack fields)).get name = some value ↔
      ∃ c ∈ cookies, c.name = name ∧ c.value = value := by
    rw [sentBack, written_pairs written, cookiesOf_pairs names values, fromEntries_get (by rw [List.map_map]; exact distinct),
      List.mem_map]
    exact exists_congr fun c => and_congr_right fun _ => Prod.mk.injEq .. ▸ Iff.rfl
  exact ⟨fields, ok, written, read, read⟩

/-- A cookie with separators, a quote and a letter beyond ASCII in its value. -/
def session : Cookie where
  name := text "__proto__"
  value := text "a; b=\"c\"%é"
  options := {
    domain := .string (text ".example.org"), expires := .date (some 0), httpOnly := .boolean true, maxAgeSeconds := .integer 60
    path := .string (text "/a b"), sameSite := .string (text "none"), secure := .boolean true }

theorem session_accepted : session.options.Accepted := by
  have valid : session.options.Valid :=
    { httpOnly := rfl
      secure := rfl
      maxAge := rfl
      domain := by
        unfold validateDomain
        exact if_neg (by decide +kernel)
      path := by
        unfold validatePath
        exact (if_neg (by decide)).trans (if_neg (by decide))
      sameSite := ⟨some (text "None"), (if_neg (by decide)).trans ((if_neg (by decide)).trans ((if_neg (by decide)).trans
        ((if_pos rfl).trans (if_neg (by decide)))))⟩
      expires := .inr ⟨toUTCString 0, by
        unfold formatExpiry
        exact if_neg (by decide +kernel)⟩ }
  exact ⟨[], text "a", [], _, setCookie_ok.mpr ⟨_, serializeCookie_iff.mpr ⟨by decide, valid, [], rfl, rfl⟩, rfl⟩⟩

theorem session_survives :
    ∃ fields : List JsString, setCookies [] [session] = .ok (fields.map (text "Set-Cookie", ·)) ∧
      List.Forall₂ Written [session] fields ∧
      (∀ name value, (webParseCookieHeader (some (sentBack fields))).get name = some value ↔
        ∃ c ∈ [session], c.name = name ∧ c.value = value) ∧
      (∀ name value, (nodeParseCookieHeader (.single (sentBack fields))).get name = some value ↔
        ∃ c ∈ [session], c.name = name ∧ c.value = value) := by
  refine cookies_survive (by decide +kernel) (by decide +kernel) (by decide +kernel) (fun c mem => ?_) []
  rw [List.mem_singleton.mp mem]
  exact session_accepted

end Fluo.Http
