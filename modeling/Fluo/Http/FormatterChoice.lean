import Fluo.Http.ContentNegotiation

/-!
# The formatter that negotiation selects

Of the formatters that a route may produce it is the greatest by quality, by the
specificity of the range that gave it, by being the default, and by its place.
-/

namespace Fluo.Http

open Js Code Preference OrderDual

/-! ## Qualities -/

/-- A quality is a `0` or a `1` with at most three decimals, which are zeros behind the `1`. -/
theorem parseQuality_iff {value : JsString} {quality : Nat} :
    parseQuality value = some quality ↔ ∃ u decimals,
      (value = [u] ∧ decimals = [] ∨ value = u :: dot :: decimals) ∧ decimals.length ≤ 3 ∧
        (u = unit '0' ∧ decimals.all isDigit = true ∧ quality = numberIn 10 decimals * 10 ^ (3 - decimals.length) ∨
          u = unit '1' ∧ decimals.all (· = unit '0') = true ∧ quality = 1000) := by
  constructor
  · intro parsed
    unfold parseQuality at parsed
    split at parsed
    · cases parsed
    · next u =>
      refine ⟨u, [], .inl ⟨rfl, rfl⟩, Nat.zero_le _, ?_⟩
      split at parsed
      · next zero => exact .inl ⟨zero, rfl, (Option.some.inj parsed).symm⟩
      · split at parsed
        · next one => exact .inr ⟨one, rfl, (Option.some.inj parsed).symm⟩
        · cases parsed
    · next u v decimals =>
      split at parsed
      · cases parsed
      · next shape =>
        obtain ⟨point, few⟩ := not_or.mp shape
        refine ⟨u, decimals, .inr (by rw [not_not.mp point]), Nat.not_lt.mp few, ?_⟩
        split at parsed
        · next zero => exact .inl ⟨zero.1, zero.2, (Option.some.inj parsed).symm⟩
        · split at parsed
          · next one => exact .inr ⟨one.1, one.2, (Option.some.inj parsed).symm⟩
          · cases parsed
  · rintro ⟨u, decimals, ⟨rfl, rfl⟩ | rfl, few, ⟨rfl, digits, rfl⟩ | ⟨rfl, zeros, rfl⟩⟩
    · rfl
    · rfl
    · simp only [parseQuality, digits, thousandths]
      simp [Nat.not_lt.mpr few]
    · have other : ¬ unit '1' = unit '0' := by decide
      simp [parseQuality, zeros, other, Nat.not_lt.mpr few]

theorem not_any_subtype {tail : JsString} (some_ : tail ≠ []) (plain : asterisk ∉ tail) (before : JsString) :
    ¬ (text "/*").isSuffixOf (before ++ tail) = true := by
  intro ends
  obtain ⟨front, same⟩ := List.isSuffixOf_iff_suffix.mp ends
  have final := congrArg List.getLast? same
  rw [List.getLast?_append_of_ne_nil _ some_, List.getLast?_append_of_ne_nil _ (by decide)] at final
  exact plain (List.mem_of_getLast? final.symm)

/-- A well-formed range is `*/*`, a type with any subtype, with a suffix, or with a subtype of its own, and is the more
specific the later it stands in this list. -/
theorem specificity_of_valid {mediaRange : JsString} (valid : isValidMediaRange mediaRange = true) :
    ∃ type subtype, mediaRange = type ++ slash :: subtype ∧
      (type = [asterisk] ∧ subtype = [asterisk] ∧ getMediaRangeSpecificity mediaRange = 0 ∨
        asterisk ∉ type ∧ subtype = [asterisk] ∧ getMediaRangeSpecificity mediaRange = 1 ∨
        asterisk ∉ type ∧ (∃ suffix ≠ [], asterisk ∉ suffix ∧ subtype = text "*+" ++ suffix) ∧
          getMediaRangeSpecificity mediaRange = 2 ∨
        asterisk ∉ type ∧ asterisk ∉ subtype ∧ getMediaRangeSpecificity mediaRange = 3) := by
  unfold isValidMediaRange at valid
  split at valid
  rotate_left
  · cases valid
  rename_i type subtype pieces
  have joined : join slash (mediaRange.splitOn slash) = mediaRange := join_splitOn mediaRange
  rw [pieces] at joined
  obtain rfl : type ++ slash :: subtype = mediaRange := joined
  refine ⟨type, subtype, rfl, ?_⟩
  by_cases empty : type = [] ∨ subtype = []
  · rw [if_pos empty] at valid
    cases valid
  rw [if_neg empty] at valid
  obtain ⟨someType, someSubtype⟩ := not_or.mp empty
  by_cases any : type = [asterisk]
  · rw [if_pos any] at valid
    rw [any, of_decide_eq_true valid]
    exact .inl ⟨rfl, rfl, by decide⟩
  rw [if_neg any] at valid
  by_cases wild : asterisk ∈ type
  · rw [if_pos wild] at valid
    cases valid
  have typed : type ++ slash :: subtype ≠ text "*/*" := by
    obtain ⟨u, rest, rfl⟩ := List.exists_cons_of_ne_nil someType
    intro same
    have head : u = asterisk := (List.cons.inj same).1
    exact wild (head ▸ List.mem_cons_self)
  rw [if_neg wild] at valid
  rw [getMediaRangeSpecificity, if_neg typed]
  by_cases every : subtype = [asterisk]
  · have ends : (text "/*").isSuffixOf (type ++ slash :: subtype) = true :=
      List.isSuffixOf_iff_suffix.mpr ⟨type, by rw [every]; rfl⟩
    exact .inr (.inl ⟨wild, every, if_pos ends⟩)
  rw [if_neg every] at valid
  by_cases begins : (text "*+").isPrefixOf subtype = true
  · rw [if_pos begins] at valid
    obtain ⟨suffix, rfl⟩ := List.isPrefixOf_iff_prefix.mp begins
    obtain ⟨more, plain⟩ := (Bool.and_eq_true _ _).mp valid
    have plain : asterisk ∉ suffix := of_decide_eq_true plain
    have nonempty : suffix ≠ [] := by
      rintro rfl
      exact absurd more (by decide)
    have ends := not_any_subtype nonempty plain (type ++ slash :: text "*+")
    rw [List.append_assoc] at ends
    have holds : (indexOf (text "/*+") (type ++ slash :: (text "*+" ++ suffix))).isSome = true :=
      Option.isSome_iff_ne_none.mpr fun none_ => indexOf_none none_ type suffix (by rw [List.append_assoc]; rfl)
    exact .inr (.inr (.inl ⟨wild, ⟨suffix, nonempty, plain, rfl⟩, (if_neg ends).trans (if_pos holds)⟩))
  rw [if_neg begins] at valid
  have plain : asterisk ∉ subtype := of_decide_eq_true valid
  have ends := not_any_subtype someSubtype plain (type ++ [slash])
  rw [List.append_assoc, List.singleton_append] at ends
  have none_ : ¬ (indexOf (text "/*+") (type ++ slash :: subtype)).isSome = true := by
    intro found
    obtain ⟨i, found⟩ := Option.isSome_iff_exists.mp found
    obtain ⟨before, behind, same, -⟩ := indexOf_some found
    have mem : asterisk ∈ type ++ slash :: subtype := by
      rw [same]
      exact List.mem_append_left _ (List.mem_append_right _ (by decide))
    rcases List.mem_append.mp mem with inType | inSubtype
    · exact wild inType
    · exact (List.mem_cons.mp inSubtype).elim (by decide) plain
  exact .inr (.inr (.inr ⟨wild, plain, (if_neg ends).trans (if_neg none_)⟩))

/-! ## The range that governs a media type -/

theorem parseAcceptToken_order {host : CaseMapping} {order : Nat} {piece : JsString} {token : AcceptToken}
    (h : parseAcceptToken host order piece = some token) : token.order = order := by
  rw [parseAcceptToken] at h
  split at h
  · cases h
  · dsimp only at h
    split at h
    · obtain ⟨quality, -, rfl⟩ := Option.map_eq_some_iff.mp h
      rfl
    · cases h

theorem parseAcceptHeader_ordered (host : CaseMapping) (acceptHeader : JsString) :
    (parseAcceptHeader host acceptHeader).Pairwise (·.order < ·.order) := by
  have places : ((acceptHeader.splitOn comma).zipIdx.map Prod.snd).Pairwise (· < ·) := by
    rw [List.zipIdx_map_snd]
    exact List.pairwise_lt_range'
  rw [parseAcceptHeader, List.pairwise_filterMap]
  refine (List.pairwise_map.mp places).imp fun less token h token' h' => ?_
  rw [parseAcceptToken_order h, parseAcceptToken_order h']
  exact less

/-- The most specific range that matches, and the earliest of those. -/
theorem selectMostSpecificAcceptToken_best (mediaType : JsString) {acceptTokens : List AcceptToken}
    (ordered : acceptTokens.Pairwise (·.order < ·.order)) :
    Best (fun token => matchesMediaRange token.mediaRange mediaType = true) (fun token => toDual token.specificity)
      acceptTokens (selectMostSpecificAcceptToken mediaType acceptTokens) := by
  refine best_foldl ordered ?_ ?_ ?_
  · intro selected token _ other
    rw [Bool.eq_false_iff.mpr other]
    rfl
  · intro token matching
    rw [matching]
    rfl
  · intro best token before _ matching
    have later : ¬ token.order < best.order := Nat.lt_asymm before
    simp [matching, later]

/-! ## Distinct formatters -/

section

variable (host : CaseMapping)

theorem distinctFormatters_types (seen : List JsString) (l : List ResponseFormatter) :
    ((distinctFormatters host seen l).map fun f => normalizeMediaType host f.mediaType).Nodup ∧
      ∀ f ∈ distinctFormatters host seen l, normalizeMediaType host f.mediaType ∉ seen := by
  induction l generalizing seen with
  | nil => exact ⟨List.nodup_nil, nofun⟩
  | cons f l ih =>
    rw [distinctFormatters]
    split
    · exact ih seen
    · next kept =>
      obtain ⟨nodup, fresh⟩ := ih (normalizeMediaType host f.mediaType :: seen)
      rw [not_or] at kept
      refine ⟨List.nodup_cons.mpr ⟨fun mem => ?_, nodup⟩, fun g mem => ?_⟩
      · obtain ⟨g, memG, same⟩ := List.mem_map.mp mem
        exact fresh g memG (same ▸ List.mem_cons_self)
      · rcases List.mem_cons.mp mem with rfl | mem
        · exact kept.2
        · exact fun seen_ => fresh g mem (List.mem_cons_of_mem _ seen_)

theorem resolveContentNegotiation_types {options : ContentNegotiationOptions} {negotiation : ResolvedContentNegotiation}
    (resolved : resolveContentNegotiation host options = some negotiation) :
    (negotiation.formatters.map fun f => normalizeMediaType host f.mediaType).Nodup ∧
      negotiation.defaultFormatter ∈ negotiation.formatters := by
  have types := (distinctFormatters_types host [] options.formatters).1
  rw [resolveContentNegotiation] at resolved
  split at resolved
  · cases resolved
  · next first rest distinct =>
    rw [distinct] at types
    obtain rfl := Option.some.inj resolved
    refine ⟨types, ?_⟩
    dsimp only
    split
    · exact List.mem_cons_self
    · cases found : (first :: rest).find? fun f => normalizeMediaType host f.mediaType =
          normalizeMediaType host (options.defaultMediaType.getD []) with
      | none => exact List.mem_cons_self
      | some f => exact List.mem_of_find?_eq_some found

/-- What the route may produce, of the configured formatters in their order. -/
def Produces (produces : List JsString) (formatter : ResponseFormatter) : Prop :=
  produces = [] ∨ ∃ mediaType ∈ produces, normalizeMediaType host mediaType = normalizeMediaType host formatter.mediaType

instance (produces : List JsString) (formatter : ResponseFormatter) : Decidable (Produces host produces formatter) :=
  inferInstanceAs (Decidable (_ ∨ _))

theorem resolveAllowedFormatters_eq (produces : List JsString) (negotiation : ResolvedContentNegotiation) :
    resolveAllowedFormatters host produces negotiation = negotiation.formatters.filter (Produces host produces ·) := by
  rw [resolveAllowedFormatters]
  split
  · next any => simp [Produces, any]
  · next listed =>
    refine List.filter_congr fun f _ => ?_
    simp [Produces, listed]

theorem resolveDefaultFormatter_cases {allowed : List ResponseFormatter} {negotiation : ResolvedContentNegotiation}
    (types : (negotiation.formatters.map fun f => normalizeMediaType host f.mediaType).Nodup)
    (mem : negotiation.defaultFormatter ∈ negotiation.formatters) (sub : ∀ f ∈ allowed, f ∈ negotiation.formatters) :
    if negotiation.defaultFormatter ∈ allowed then
      resolveDefaultFormatter host allowed negotiation = negotiation.defaultFormatter
    else resolveDefaultFormatter host allowed negotiation = allowed.headD negotiation.defaultFormatter := by
  have only (f : ResponseFormatter) (memF : f ∈ allowed)
      (same : normalizeMediaType host f.mediaType = normalizeMediaType host negotiation.defaultFormatter.mediaType) :
      f = negotiation.defaultFormatter := List.inj_on_of_nodup_map types (sub f memF) mem same
  rw [resolveDefaultFormatter]
  cases found : allowed.find? fun f => normalizeMediaType host f.mediaType =
      normalizeMediaType host negotiation.defaultFormatter.mediaType with
  | none =>
    have absent : negotiation.defaultFormatter ∉ allowed := fun memD => by
      simpa using List.find?_eq_none.mp found _ memD
    rw [if_neg absent]
  | some f =>
    have memF := List.mem_of_find?_eq_some found
    have eq := only f memF (by simpa using List.find?_some found)
    rw [if_pos (eq ▸ memF)]
    exact eq

/-! ## The choice -/

/-- The range that gives a formatter its quality. -/
def rating (acceptTokens : List AcceptToken) (formatter : ResponseFormatter) : Option AcceptToken :=
  selectMostSpecificAcceptToken (normalizeMediaType host formatter.mediaType) acceptTokens

def Acceptable (acceptTokens : List AcceptToken) (formatter : ResponseFormatter) : Prop :=
  ∃ token, rating host acceptTokens formatter = some token ∧ 0 < token.quality

/-- Quality, specificity and being the default, compared in this order. -/
def standing (acceptTokens : List AcceptToken) (preferred formatter : ResponseFormatter) : List Nat :=
  match rating host acceptTokens formatter with
  | none => []
  | some token => [token.quality, token.specificity, if formatter = preferred then 1 else 0]

/-- The ranges that a request accepts: without the header, or with a blank one,
everything alike. -/
def acceptRanges (request : FrameworkRequest) : List AcceptToken :=
  match readAcceptHeader host request with
  | none => [⟨text "*/*", 0, 1000, 0⟩]
  | some acceptHeader => parseAcceptHeader host acceptHeader

theorem acceptRanges_ordered (request : FrameworkRequest) :
    (acceptRanges host request).Pairwise (·.order < ·.order) := by
  rw [acceptRanges]
  split
  · exact List.pairwise_singleton _ _
  · exact parseAcceptHeader_ordered host _

/-- A formatter with the range that gives its quality. -/
def rated (acceptTokens : List AcceptToken) (formatter : ResponseFormatter) : Option (ResponseFormatter × AcceptToken) :=
  (rating host acceptTokens formatter).map (formatter, ·)

/-- A turn of the loop without the range, which the formatter determines. -/
def choose (acceptTokens : List AcceptToken) (defaultFormatter : ResponseFormatter) (selected : Option ResponseFormatter)
    (formatter : ResponseFormatter) : Option ResponseFormatter :=
  (considerFormatter host acceptTokens defaultFormatter (selected.bind (rated host acceptTokens)) formatter).map Prod.fst

theorem considerFormatter_choose (acceptTokens : List AcceptToken) (defaultFormatter : ResponseFormatter)
    (selected : Option ResponseFormatter) (formatter : ResponseFormatter) :
    considerFormatter host acceptTokens defaultFormatter (selected.bind (rated host acceptTokens)) formatter =
      (choose host acceptTokens defaultFormatter selected formatter).bind (rated host acceptTokens) := by
  have kept : selected.bind (rated host acceptTokens) =
      ((selected.bind (rated host acceptTokens)).map Prod.fst).bind (rated host acceptTokens) := by
    cases selected with
    | none => rfl
    | some s =>
      rw [Option.bind_some]
      cases rates : rated host acceptTokens s with
      | none => rfl
      | some both =>
        obtain ⟨token, -, rfl⟩ := Option.map_eq_some_iff.mp rates
        exact rates.symm
  rw [choose, considerFormatter, ← rating]
  cases rates : rating host acceptTokens formatter with
  | none => exact kept
  | some token =>
    have own : some (formatter, token) = rated host acceptTokens formatter := by rw [rated, rates]; rfl
    dsimp only
    split
    · exact kept
    · split
      · exact own
      · next s best at_ =>
        split
        · exact at_ ▸ kept
        · split
          · exact own
          · exact at_ ▸ kept

theorem foldl_considerFormatter (acceptTokens : List AcceptToken) (defaultFormatter : ResponseFormatter)
    (l : List ResponseFormatter) :
    l.foldl (considerFormatter host acceptTokens defaultFormatter) none =
      (l.foldl (choose host acceptTokens defaultFormatter) none).bind (rated host acceptTokens) := by
  have general (selected : Option ResponseFormatter) :
      l.foldl (considerFormatter host acceptTokens defaultFormatter) (selected.bind (rated host acceptTokens)) =
        (l.foldl (choose host acceptTokens defaultFormatter) selected).bind (rated host acceptTokens) :=
    List.foldl_hom (fun selected => selected.bind (rated host acceptTokens))
      fun selected formatter => considerFormatter_choose host acceptTokens defaultFormatter selected formatter
  exact general none

/-- The loop replaces what it has exactly by a formatter of higher standing. -/
theorem foldl_choose_best (acceptTokens : List AcceptToken) {defaultFormatter preferred : ResponseFormatter}
    {l : List ResponseFormatter} (nodup : l.Nodup)
    (later : l.Pairwise fun _ f => f = defaultFormatter ↔ f = preferred) :
    Best (Acceptable host acceptTokens) (fun f => toDual (standing host acceptTokens preferred f)) l
      (l.foldl (choose host acceptTokens defaultFormatter) none) := by
  refine best_foldl (R := fun s f => s ≠ f ∧ (f = defaultFormatter ↔ f = preferred)) (nodup.and later) ?_ ?_ ?_
  · intro selected f held other
    have kept : (selected.bind (rated host acceptTokens)).map Prod.fst = selected := by
      cases selected with
      | none => rfl
      | some s =>
        obtain ⟨token, rates, -⟩ := held s rfl
        rw [Option.bind_some, rated, rates]
        rfl
    rw [choose, considerFormatter, ← rating]
    cases rates : rating host acceptTokens f with
    | none => exact kept
    | some token =>
      have zero : token.quality = 0 := by
        by_contra positive
        exact other ⟨token, rates, Nat.pos_of_ne_zero positive⟩
      dsimp only
      rw [if_pos zero]
      exact kept
  · intro f acceptable
    obtain ⟨token, rates, positive⟩ := acceptable
    rw [choose, considerFormatter, ← rating, rates]
    simp [Nat.pos_iff_ne_zero.mp positive]
  · intro s f order acceptableS acceptable
    obtain ⟨token, rates, positive⟩ := acceptable
    obtain ⟨best, ratesS, -⟩ := acceptableS
    have single : (if s = preferred then 1 else 0) < (if f = preferred then 1 else 0) ↔ f = defaultFormatter := by
      rw [order.2]
      by_cases isPreferred : f = preferred
      · have other : s ≠ preferred := isPreferred ▸ order.1
        simp [isPreferred, other]
      · simp [isPreferred]
    have compared : toDual (standing host acceptTokens preferred f) < toDual (standing host acceptTokens preferred s) ↔
        best.quality < token.quality ∨ best.quality = token.quality ∧
          (best.specificity < token.specificity ∨ best.specificity = token.specificity ∧ f = defaultFormatter) := by
      rw [toDual_lt_toDual, standing, standing, rates, ratesS]
      simp only [List.cons_lt_cons_iff, List.not_lt_nil, and_false, or_false, single]
    rw [choose, considerFormatter, ← rating, rates, Option.bind_some, rated, ratesS]
    dsimp only [Option.map_some]
    rw [if_neg (Nat.pos_iff_ne_zero.mp positive)]
    split
    · next behind =>
      rw [if_neg fun above => ?_]
      · rfl
      · rcases compared.mp above with more | ⟨same, more | ⟨same', -⟩⟩ <;> omega
    · next notBehind =>
      split
      · next replaces =>
        rw [if_pos (compared.mpr ?_)]
        · rfl
        · rcases replaces with more | more | isDefault
          · exact .inl more
          · by_cases same : best.quality = token.quality
            · exact .inr ⟨same, .inl more⟩
            · exact .inl (by omega)
          · by_cases same : best.quality = token.quality
            · by_cases same' : best.specificity = token.specificity
              · exact .inr ⟨same, .inr ⟨same', isDefault⟩⟩
              · exact .inr ⟨same, .inl (by omega)⟩
            · exact .inl (by omega)
      · next keeps =>
        rw [if_neg fun above => keeps ?_]
        · rfl
        · rcases compared.mp above with more | ⟨-, more | ⟨-, isDefault⟩⟩
          · exact .inl more
          · exact .inr (.inl more)
          · exact .inr (.inr isDefault)

/-- Behind the first formatter, the default of the loop is the configured one. -/
theorem resolveDefaultFormatter_later {allowed : List ResponseFormatter} {negotiation : ResolvedContentNegotiation}
    (types : (negotiation.formatters.map fun f => normalizeMediaType host f.mediaType).Nodup)
    (mem : negotiation.defaultFormatter ∈ negotiation.formatters) (sub : ∀ f ∈ allowed, f ∈ negotiation.formatters)
    (nodup : allowed.Nodup) : allowed.Pairwise fun _ f =>
      f = resolveDefaultFormatter host allowed negotiation ↔ f = negotiation.defaultFormatter := by
  have cases_ := resolveDefaultFormatter_cases host types mem sub
  split at cases_
  · rw [cases_]
    exact List.pairwise_of_forall fun _ _ => Iff.rfl
  · next absent =>
    rw [cases_]
    cases allowed with
    | nil => exact List.Pairwise.nil
    | cons first rest =>
      have none_ (f : ResponseFormatter) (memF : f ∈ rest) : f = first ↔ f = negotiation.defaultFormatter := by
        constructor
        · rintro rfl
          exact absurd memF (List.nodup_cons.mp nodup).1
        · rintro rfl
          exact absurd (List.mem_cons_of_mem _ memF) absent
      exact List.pairwise_cons.mpr ⟨fun f memF => none_ f memF,
        List.Pairwise.imp_of_mem (fun _ memF _ => none_ _ memF) (List.pairwise_of_forall fun _ _ => trivial)⟩

theorem default_best {allowed : List ResponseFormatter} {negotiation : ResolvedContentNegotiation}
    (types : (negotiation.formatters.map fun f => normalizeMediaType host f.mediaType).Nodup)
    (mem : negotiation.defaultFormatter ∈ negotiation.formatters) (sub : ∀ f ∈ allowed, f ∈ negotiation.formatters)
    (nodup : allowed.Nodup) (some_ : allowed ≠ []) :
    Best (Acceptable host [⟨text "*/*", 0, 1000, 0⟩])
      (fun f => toDual (standing host [⟨text "*/*", 0, 1000, 0⟩] negotiation.defaultFormatter f)) allowed
      (some (resolveDefaultFormatter host allowed negotiation)) := by
  have rates (f : ResponseFormatter) : rating host [⟨text "*/*", 0, 1000, 0⟩] f = some ⟨text "*/*", 0, 1000, 0⟩ := rfl
  have acceptable (f : ResponseFormatter) : Acceptable host [⟨text "*/*", 0, 1000, 0⟩] f := ⟨_, rates f, by decide⟩
  have stands (f : ResponseFormatter) : standing host [⟨text "*/*", 0, 1000, 0⟩] negotiation.defaultFormatter f =
      [1000, 0, if f = negotiation.defaultFormatter then 1 else 0] := by
    rw [standing, rates]
  have cases_ := resolveDefaultFormatter_cases host types mem sub
  split at cases_
  · next present =>
    rw [cases_]
    obtain ⟨i, found⟩ := List.mem_iff_getElem?.mp present
    refine ⟨i, found, acceptable _, fun j b at_ _ differs => .inl ?_⟩
    have other : b ≠ negotiation.defaultFormatter := fun same =>
      differs ((List.getElem?_inj (List.getElem?_eq_some_iff.mp at_).1 nodup).mp (by rw [at_, found, same]))
    rw [toDual_lt_toDual, stands, stands, if_neg other, if_pos rfl]
    decide
  · next absent =>
    rw [cases_]
    cases allowed with
    | nil => exact absurd rfl some_
    | cons first rest =>
      refine ⟨0, rfl, acceptable _, fun j b at_ _ differs => .inr ⟨?_, Nat.pos_of_ne_zero differs⟩⟩
      have otherFirst : first ≠ negotiation.defaultFormatter := fun same => absent (same ▸ List.mem_cons_self)
      have other : b ≠ negotiation.defaultFormatter := fun same => absent (same ▸ List.mem_of_getElem? at_)
      dsimp only [List.headD_cons]
      rw [stands, stands, if_neg otherFirst, if_neg other]

/-- The response has the acceptable formatter of the highest standing, the first
of them, or there is no acceptable one among those that the route produces. -/
theorem selectResponseFormatter_best {options : ContentNegotiationOptions} {negotiation : ResolvedContentNegotiation}
    (resolved : resolveContentNegotiation host options = some negotiation) (produces : List JsString)
    (request : FrameworkRequest) :
    Best (Acceptable host (acceptRanges host request))
      (fun f => toDual (standing host (acceptRanges host request) negotiation.defaultFormatter f))
      (negotiation.formatters.filter (Produces host produces ·))
      (selectResponseFormatter host produces request negotiation).toOption ∧
    (∀ error, selectResponseFormatter host produces request negotiation = .error error →
      error = noAcceptableRepresentation) ∧
    ∀ formatter, Best (fun token => matchesMediaRange token.mediaRange (normalizeMediaType host formatter.mediaType) = true)
      (fun token => toDual token.specificity) (acceptRanges host request)
      (rating host (acceptRanges host request) formatter) := by
  obtain ⟨types, mem⟩ := resolveContentNegotiation_types host resolved
  refine ⟨?_, ?_, fun formatter => selectMostSpecificAcceptToken_best _ (acceptRanges_ordered host request)⟩
  · have nodup : (negotiation.formatters.filter (Produces host produces ·)).Nodup := (List.Nodup.of_map _ types).filter _
    have sub : ∀ f ∈ negotiation.formatters.filter (Produces host produces ·), f ∈ negotiation.formatters :=
      fun f memF => List.mem_of_mem_filter memF
    rw [selectResponseFormatter, resolveAllowedFormatters_eq, acceptRanges]
    generalize negotiation.formatters.filter (Produces host produces ·) = allowed at nodup sub
    by_cases empty : allowed = []
    · rw [empty]
      exact fun _ none_ => absurd none_ List.not_mem_nil
    · simp only [if_neg empty]
      cases readAcceptHeader host request with
      | none => exact default_best host types mem sub nodup empty
      | some acceptHeader =>
        dsimp only
        have best := foldl_choose_best host (parseAcceptHeader host acceptHeader) nodup
          (resolveDefaultFormatter_later host types mem sub nodup)
        split
        · next blank =>
          rw [blank]
          rintro f - ⟨token, rates, -⟩
          exact absurd rates (by simp [rating, selectMostSpecificAcceptToken])
        · rw [foldl_considerFormatter]
          cases chosen : allowed.foldl (choose host (parseAcceptHeader host acceptHeader)
              (resolveDefaultFormatter host allowed negotiation)) none with
          | none =>
            rw [chosen] at best
            exact best
          | some f =>
            rw [chosen] at best
            have acceptable : Acceptable host (parseAcceptHeader host acceptHeader) f := by
              obtain ⟨-, -, acceptable, -⟩ := best
              exact acceptable
            obtain ⟨token, rates, -⟩ := acceptable
            rw [Option.bind_some, rated, rates]
            exact best
  · intro error failed
    rw [selectResponseFormatter] at failed
    dsimp only at failed
    split at failed
    · cases failed
      rfl
    · split at failed
      · cases failed
      · split at failed
        · cases failed
          rfl
        · split at failed
          · cases failed
          · cases failed
            rfl

end

/-! ## Requests -/

def jsonFormatter : ResponseFormatter := ⟨1, text "application/json"⟩

def textFormatter : ResponseFormatter := ⟨2, text "text/plain"⟩

def jsonOrText : ContentNegotiationOptions := ⟨none, [jsonFormatter, textFormatter]⟩

def accepting (acceptHeader : JsString) : FrameworkRequest :=
  ⟨text "GET", false, text "/reports", [(text "accept", some (.one acceptHeader))]⟩

theorem text_selected : ∃ negotiation,
    resolveContentNegotiation .same jsonOrText = some negotiation ∧
    Best (Acceptable .same (acceptRanges .same (accepting (text "application/json;q=0.5, text/*"))))
      (fun f => toDual (standing .same (acceptRanges .same (accepting (text "application/json;q=0.5, text/*")))
        negotiation.defaultFormatter f))
      (negotiation.formatters.filter (Produces .same [] ·)) (some textFormatter) :=
  ⟨⟨jsonFormatter, [jsonFormatter, textFormatter]⟩, by decide,
    (selectResponseFormatter_best .same (show resolveContentNegotiation .same jsonOrText = some _ by decide) []
      (accepting (text "application/json;q=0.5, text/*"))).1⟩

/-- A blank `Accept` header has no media range and yet selects the default. -/
theorem blank_accept_selects :
    resolveContentNegotiation .same jsonOrText = some ⟨jsonFormatter, [jsonFormatter, textFormatter]⟩ ∧
    selectResponseFormatter .same [] (accepting (text " ")) ⟨jsonFormatter, [jsonFormatter, textFormatter]⟩ =
      .ok jsonFormatter ∧
    parseAcceptHeader .same (text " ") = [] ∧
    ∀ formatter, ¬ Acceptable .same (parseAcceptHeader .same (text " ")) formatter := by
  have none_ : parseAcceptHeader .same (text " ") = [] := by decide
  refine ⟨by decide, by decide, none_, ?_⟩
  rintro formatter ⟨token, rates, -⟩
  rw [rating, none_] at rates
  exact absurd rates nofun

end Fluo.Http
