import Fluo.Http.ContentNegotiation
import Fluo.Http.Cookies
import Fluo.Http.RoutePath

/-!
# Locale resolution

The locale of a request is selected from the configured ones by the ranges of
its `Accept-Language` header.
-/

namespace Fluo.I18n

open Js Code Http

def hyphen : UInt16 := unit '-'

abbrev I18nLocale := JsString

/-- The quality is in thousandths. -/
structure AcceptLanguagePreferenceInternal where
  locale : I18nLocale
  quality : Nat
  deriving DecidableEq, Repr

/-- A preference with the place of its element in the header. -/
structure IndexedPreference where
  index : Nat
  preference : AcceptLanguagePreferenceInternal
  deriving DecidableEq, Repr

structure WildcardLocalePolicyInput where
  defaultLocale : I18nLocale
  supportedLocales : Option (List I18nLocale)
  deriving DecidableEq, Repr

inductive WildcardLocalePolicy
  | defaultLocale
  | firstSupportedLocale
  | callback (policy : WildcardLocalePolicyInput → Option I18nLocale)

structure AcceptLanguageLocalePolicyOptions where
  wildcardLocale : Option WildcardLocalePolicy := none
  normalizeToSupportedLocale : Option Bool := none

/-! ## Locales -/

def isSubtag (allowed : UInt16 → Bool) (subtag : JsString) : Bool :=
  1 ≤ subtag.length && subtag.length ≤ 8 && subtag.all allowed

/-- `LOCALE_PATTERN` -/
def isValidLocale (locale : JsString) : Bool :=
  match locale.splitOn hyphen with
  | [] => false
  | language :: subtags => isSubtag isLetter language && subtags.all (isSubtag isAlphanumeric)

section

variable (host : CaseMapping)

/-- The configured spelling of a locale in lower case. -/
def spellingOf (supportedLocales : List I18nLocale) (lowerCased : JsString) : Option I18nLocale :=
  supportedLocales.find? fun supportedLocale => host.toLowerCase supportedLocale = lowerCased

def resolveSupportedLocale (locale : I18nLocale) : Option (List I18nLocale) → Option I18nLocale
  | none => some locale
  | some [] => some locale
  | some supportedLocales => spellingOf host supportedLocales (host.toLowerCase locale)

/-- The loop over the parents of a locale, whose segments come last first. -/
def supportedParent (supportedLocales : List I18nLocale) : List JsString → Option I18nLocale
  | [] => none
  | _ :: localeSegments =>
    if localeSegments = [] then none
    else
      match spellingOf host supportedLocales (join hyphen localeSegments.reverse) with
      | some parent => some parent
      | none => supportedParent supportedLocales localeSegments

def normalizeSupportedLocale (locale : I18nLocale) (supportedLocales : Option (List I18nLocale))
    (allowBaseLocaleMatch : Bool) : Option I18nLocale :=
  match supportedLocales with
  | none => some locale
  | some [] => some locale
  | some supported =>
    match resolveSupportedLocale host locale supportedLocales with
    | some exact_ => some exact_
    | none =>
      if !allowBaseLocaleMatch then none
      else supportedParent host supported ((host.toLowerCase locale).splitOn hyphen).reverse

end

/-! ## The header -/

/-- The value of a parameter `q`, none for any other parameter. -/
def qualityParameter (parameter : JsString) : Option Nat :=
  match trim parameter with
  | name :: sign :: value =>
    if (name = unit 'q' ∨ name = unit 'Q') ∧ sign = equalsSign then parseQuality value else none
  | _ => none

/-- `quality` and `hasQuality` are one value, none before the parameter `q`. -/
def parseAcceptLanguageQuality (quality : Option Nat) : List JsString → Option Nat
  | [] => some (quality.getD 1000)
  | parameter :: parameters =>
    if quality.isSome then none
    else
      match qualityParameter parameter with
      | none => none
      | some value => parseAcceptLanguageQuality (some value) parameters

/-- The range that one element of the header lists, with its quality. -/
def listedRange (rawPart : JsString) : Option AcceptLanguagePreferenceInternal :=
  match rawPart.splitOn semicolon with
  | [] => none
  | rawLocale :: parameters =>
    let locale := trim rawLocale
    if locale = [] ∨ locale ≠ [asterisk] ∧ !isValidLocale locale then none
    else (parseAcceptLanguageQuality none parameters).map fun quality => ⟨locale, quality⟩

def parseElement (part : JsString × Nat) : Option IndexedPreference :=
  match listedRange part.1 with
  | some preference => if 0 < preference.quality then some ⟨part.2, preference⟩ else none
  | none => none

def rawHeader : Option HeaderValue → Option JsString
  | none => none
  | some (.one header) => some header
  | some (.many headers) => some (join comma headers)

/-- By descending quality, then in the order of the header. -/
def notAfter (left right : IndexedPreference) : Bool :=
  right.preference.quality < left.preference.quality ||
    right.preference.quality = left.preference.quality && left.index ≤ right.index

def parseLocalePreferences (header : Option HeaderValue) : List AcceptLanguagePreferenceInternal :=
  match rawHeader header with
  | none => []
  | some raw =>
    if trim raw = [] then []
    else (((raw.splitOn comma).zipIdx.filterMap parseElement).mergeSort notAfter).map (·.preference)

/-! ## Selection -/

section

variable (host : CaseMapping)

def resolveWildcardLocale (policy : WildcardLocalePolicy) (defaultLocale : I18nLocale)
    (supportedLocales : Option (List I18nLocale)) : Option I18nLocale :=
  match policy with
  | .defaultLocale => normalizeSupportedLocale host defaultLocale supportedLocales false
  | .firstSupportedLocale => some ((supportedLocales.bind List.head?).getD defaultLocale)
  | .callback policy => policy ⟨defaultLocale, supportedLocales⟩

variable (defaultLocale : I18nLocale) (supportedLocales : Option (List I18nLocale))
  (options : AcceptLanguageLocalePolicyOptions)

def AcceptLanguageLocalePolicyOptions.allowBaseLocaleMatch : Bool := options.normalizeToSupportedLocale.getD true

/-- What follows the loop over the preferences when one was `*`. -/
def wildcardChoice : Option I18nLocale :=
  match options.wildcardLocale with
  | none => none
  | some policy =>
    match resolveWildcardLocale host policy defaultLocale supportedLocales with
    | none => none
    | some wildcardLocale =>
      if !isValidLocale wildcardLocale then none
      else normalizeSupportedLocale host wildcardLocale supportedLocales options.allowBaseLocaleMatch

def selectFrom (hasWildcard : Bool) : List AcceptLanguagePreferenceInternal → Option I18nLocale
  | [] => if !hasWildcard then none else wildcardChoice host defaultLocale supportedLocales options
  | preference :: preferences =>
    if preference.locale = [asterisk] then selectFrom true preferences
    else
      match normalizeSupportedLocale host preference.locale supportedLocales options.allowBaseLocaleMatch with
      | some normalizedLocale => some normalizedLocale
      | none => selectFrom hasWildcard preferences

def selectLocaleFromAcceptLanguagePolicy (preferences : List AcceptLanguagePreferenceInternal) : Option I18nLocale :=
  selectFrom host defaultLocale supportedLocales options false preferences

end

end Fluo.I18n
