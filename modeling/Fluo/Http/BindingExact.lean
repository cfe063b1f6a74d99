import Fluo.Http.Binding

/-!
# What a DTO is bound to

Each field should hold the converted value of an entry that its part of the request
has. It does for all converters exactly if no field is named like a property of
`Object.prototype` that a record without such an entry inherits.
-/

namespace Fluo.Http.Binding

open Js
open PlainObject (objectNames)

section

variable {A : Type}

/-! ## What was sent -/

/-- The value of an entry of the record itself. -/
def Dictionary.sent (d : Dictionary A) (key : JsString) : Option (Value A) := ((d.own.get key).join).map .data

/-- The record has no such entry, and yet the property is found. -/
def Dictionary.Inherits (d : Dictionary A) (key : JsString) : Prop :=
  d.ordinary = true ∧ d.own.get key = none ∧ key ∈ objectNames

theorem Dictionary.read_own {d : Dictionary A} {key : JsString} (own : ¬ d.Inherits key) : d.read key = d.sent key := by
  rw [Dictionary.read, Dictionary.sent]
  cases found : d.own.get key with
  | none => exact if_neg fun h => own ⟨h.1, found, h.2⟩
  | some v => rfl

theorem Dictionary.read_inherited {d : Dictionary A} {key : JsString} (inherits : d.Inherits key) :
    d.read key = some (.builtin key) := by
  rw [Dictionary.read, inherits.2.1]
  exact if_pos ⟨inherits.1, inherits.2.2⟩

variable (host : CaseMapping)

def received (request : Request A) (e : PlanEntry) : Option (Value A) :=
  match e.source with
  | .path => request.params.sent e.sourceKey
  | .query => request.query.sent e.sourceKey
  | .header => (getRequestHeader host request.headers e.sourceKey).map .header
  | .cookie => request.cookies.sent e.sourceKey
  | .body =>
    match request.body with
    | .plain object => object.sent e.sourceKey
    | _ => none
  | .files => request.files.map fun files => .files (files.filter (·.fieldname = e.sourceKey))

/-- The entry reads a property that its record inherits. A stripped body inherits
nothing; the empty object for a body that is none inherits everything. -/
def Inherits (policy : InputPolicyOptions) (request : Request A) (e : PlanEntry) : Prop :=
  match e.source with
  | .path => request.params.Inherits e.sourceKey
  | .query => request.query.Inherits e.sourceKey
  | .cookie => request.cookies.Inherits e.sourceKey
  | .body =>
    match request.body with
    | .absent => False
    | .plain object => policy.unknownFields ≠ some .strip ∧ object.Inherits e.sourceKey
    | .other _ => e.sourceKey ∈ objectNames
  | _ => False

/-- The policy refuses the body: it is no object, has a dangerous key, or an undeclared
one that is not to be stripped. -/
def Refused (declared : List JsString) (policy : InputPolicyOptions) : Body A → Prop
  | .absent => False
  | .other keys => policy.nonObjects ≠ some .empty ∨ ∃ key ∈ keys, key ∈ dangerousKeys
  | .plain object =>
    ∃ key ∈ object.own.keys, key ∈ dangerousKeys ∨ policy.unknownFields ≠ some .strip ∧ key ∉ declared

theorem details_pos_iff {plain : Bool} {declared : List JsString} {policy : InputPolicyOptions} {keys : List JsString} :
    0 < (keys.filterMap (keyDetail plain declared policy)).length ↔
      ∃ key ∈ keys, key ∈ dangerousKeys ∨ plain = true ∧ policy.unknownFields ≠ some .strip ∧ key ∉ declared := by
  have detail (key : JsString) : keyDetail plain declared policy key ≠ none ↔
      key ∈ dangerousKeys ∨ plain = true ∧ policy.unknownFields ≠ some .strip ∧ key ∉ declared := by
    rw [keyDetail]
    split
    next dangerous => exact ⟨fun _ => .inl dangerous, fun _ => Option.some_ne_none _⟩
    next harmless =>
      split
      next unknown => exact ⟨fun _ => .inr unknown, fun _ => Option.some_ne_none _⟩
      next fine => exact ⟨fun h => absurd rfl h, fun h => absurd h (not_or.mpr ⟨harmless, fine⟩)⟩
  rw [List.length_pos_iff, ne_eq, List.filterMap_eq_nil_iff]
  push Not
  exact exists_congr fun key => and_congr_right fun _ => detail key

theorem prepare_cases {E : Type} (request : Request A) (declared : List JsString) (policy : InputPolicyOptions) :
    (Refused declared policy request.body ∧
      ∃ message details, prepareBindingRequest (E := E) request declared policy = .error (.badRequest message details)) ∨
    ¬ Refused declared policy request.body ∧
      ∃ body, prepareBindingRequest (E := E) request declared policy = .ok { request with body } ∧
        match request.body with
        | .absent => body = .absent
        | .other _ => body = .plain ⟨.empty, true⟩
        | .plain object => body = if policy.unknownFields = some .strip then .plain (object.strip declared) else .plain object := by
  obtain ⟨params, query, cookies, headers, body, files⟩ := request
  cases body with
  | absent => exact .inr ⟨id, .absent, rfl, rfl⟩
  | other keys =>
    by_cases empty : policy.nonObjects ≠ some .empty
    · exact .inl ⟨.inl empty, _, _, by rw [prepareBindingRequest]; exact if_pos empty⟩
    · by_cases bad : 0 < (keys.filterMap (keyDetail false declared policy)).length
      · refine .inl ⟨.inr ?_, _, _, by rw [prepareBindingRequest]; exact (if_neg empty).trans (if_pos bad)⟩
        obtain ⟨key, mem, dangerous | ⟨⟨⟩, -⟩⟩ := details_pos_iff.mp bad
        exact ⟨key, mem, dangerous⟩
      · refine .inr ⟨?_, _, by rw [prepareBindingRequest]; exact (if_neg empty).trans (if_neg bad), rfl⟩
        rintro (no | ⟨key, mem, dangerous⟩)
        · exact empty no
        · exact bad (details_pos_iff.mpr ⟨key, mem, .inl dangerous⟩)
  | plain object =>
    by_cases bad : 0 < (object.own.keys.filterMap (keyDetail true declared policy)).length
    · refine .inl ⟨?_, _, _, by rw [prepareBindingRequest]; exact if_pos bad⟩
      obtain ⟨key, mem, h⟩ := details_pos_iff.mp bad
      exact ⟨key, mem, h.imp_right And.right⟩
    · refine .inr ⟨fun ⟨key, mem, h⟩ => bad (details_pos_iff.mpr ⟨key, mem, h.imp_right fun h => ⟨rfl, h⟩⟩), ?_⟩
      by_cases strip : policy.unknownFields = some .strip
      · exact ⟨_, by rw [prepareBindingRequest]; exact (if_neg bad).trans (if_pos strip), (if_pos strip).symm⟩
      · exact ⟨_, by rw [prepareBindingRequest]; exact (if_neg bad).trans (if_neg strip), (if_neg strip).symm⟩

theorem strip_read (d : Dictionary A) {declared : List JsString} {key : JsString} (mem : key ∈ declared) :
    (d.strip declared).read key = d.sent key := by
  have same : (d.strip declared).own.get key = d.own.get key :=
    OrderedMap.get_filter_of_kept fun _ _ => decide_eq_true mem
  rw [Dictionary.read_own fun h => Bool.false_ne_true h.1, Dictionary.sent, Dictionary.sent, same]

theorem empty_read (key : JsString) :
    (⟨.empty, true⟩ : Dictionary A).read key = if key ∈ objectNames then some (.builtin key) else none := by
  rw [Dictionary.read, OrderedMap.get_empty]
  simp

theorem mem_bodyKeys {schema : DtoBindingSchema} {e : PlanEntry} (mem : e ∈ entriesOf schema) (body : e.source = .body) :
    e.sourceKey ∈ bodyKeys schema :=
  List.mem_map.mpr ⟨e, List.mem_filter.mpr ⟨mem, decide_eq_true body⟩, rfl⟩

/-- In an accepted request an entry reads what was sent, or the inherited property. -/
theorem read_accepted {E : Type} {schema : DtoBindingSchema} {policy : InputPolicyOptions} {request prepared : Request A}
    (accepted : prepareBindingRequest (E := E) request (bodyKeys schema) policy = .ok prepared) {e : PlanEntry}
    (mem : e ∈ entriesOf schema) :
    (¬ Inherits policy request e → e.read host prepared = received host request e) ∧
      (Inherits policy request e → e.read host prepared = some (.builtin e.sourceKey) ∧ received host request e = none) := by
  obtain ⟨-, _, _, refused⟩ | ⟨-, body, made, shape⟩ := prepare_cases (E := E) request (bodyKeys schema) policy
  · rw [refused] at accepted
    cases accepted
  · rw [made] at accepted
    obtain rfl := Except.ok.inj accepted
    have record (d : Dictionary A) : (¬ d.Inherits e.sourceKey → d.read e.sourceKey = d.sent e.sourceKey) ∧
        (d.Inherits e.sourceKey → d.read e.sourceKey = some (.builtin e.sourceKey) ∧ d.sent e.sourceKey = none) :=
      ⟨Dictionary.read_own, fun h => ⟨Dictionary.read_inherited h, by rw [Dictionary.sent, h.2.1]; rfl⟩⟩
    unfold PlanEntry.read createSourceReader Inherits received
    cases source : e.source with
    | path => exact record _
    | query => exact record _
    | cookie => exact record _
    | header => exact ⟨fun _ => rfl, False.elim⟩
    | files => exact ⟨fun _ => rfl, False.elim⟩
    | body =>
      dsimp only
      cases sent : request.body with
      | absent =>
        rw [sent] at shape
        subst shape
        exact ⟨fun _ => rfl, False.elim⟩
      | other keys =>
        rw [sent] at shape
        subst shape
        dsimp only
        rw [empty_read]
        exact ⟨fun no => if_neg no, fun yes => ⟨if_pos yes, rfl⟩⟩
      | plain object =>
        rw [sent] at shape
        subst shape
        by_cases strip : policy.unknownFields = some .strip
        · rw [if_pos strip]
          exact ⟨fun _ => strip_read object (mem_bodyKeys mem source), fun h => absurd strip h.1⟩
        · rw [if_neg strip]
          exact ⟨fun no => (record object).1 fun h => no ⟨strip, h⟩, fun yes => (record object).2 yes.2⟩

/-! ## The loops -/

variable {E : Type}

def settle (convert : Value A → Except E (Value A)) : Option (Value A) → Except E (Option (Value A))
  | none => .ok none
  | some v => (convert v).map some

/-- A field that has a value is written, another one is left as it is. -/
def put (value : Dto A) : PlanEntry × Option (Value A) → Dto A
  | (_, none) => value
  | (e, some v) => value.set e.propertyKey v

def missing (read : PlanEntry → Option (Value A)) (entries : List PlanEntry) : List PlanEntry :=
  entries.filter fun e => !e.optional && (read e).isNone

theorem loop_eq (read : PlanEntry → Option (Value A)) (convert : PlanEntry → Value A → Except E (Value A)) (entries : List PlanEntry)
    (value : Dto A) (details : List InputErrorDetail) :
    entries.foldlM (fun (bound : Bound A) entry =>
        match read entry with
        | none => Except.ok (if entry.optional then bound else (bound.1, bound.2 ++ [missingField entry]))
        | some raw => (convert entry raw).map fun converted => (bound.1.set entry.propertyKey converted, bound.2)) (value, details) =
      (entries.mapM fun e => settle (convert e) (read e)).map fun values =>
        ((entries.zip values).foldl put value, details ++ (missing read entries).map missingField) := by
  induction entries generalizing value details with
  | nil => simp [missing]; rfl
  | cons e entries ih =>
    rw [List.foldlM_cons, List.mapM_cons]
    cases found : read e with
    | none =>
      have one : (if e.optional then ((value, details) : Bound A) else (value, details ++ [missingField e])) =
          (value, if e.optional then details else details ++ [missingField e]) := by split <;> rfl
      have next : (if e.optional then details else details ++ [missingField e]) ++ (missing read entries).map missingField =
          details ++ (missing read (e :: entries)).map missingField := by
        by_cases optional : e.optional
        · simp [missing, optional]
        · simp [missing, optional, found]
      dsimp only
      rw [settle, one, ← next]
      refine (ih value _).trans ?_
      show _ = Except.map _ (Except.bind (Except.ok none) fun v => Except.bind (entries.mapM _) fun values => Except.ok (v :: values))
      cases entries.mapM fun e => settle (convert e) (read e) with
      | error error => rfl
      | ok values => rfl
    | some raw =>
      have same : missing read (e :: entries) = missing read entries := List.filter_cons_of_neg (by simp [found])
      dsimp only
      rw [settle, same]
      cases convert e raw with
      | error error => rfl
      | ok converted =>
        refine (ih (value.set e.propertyKey converted) details).trans ?_
        show _ = Except.map _ (Except.bind (Except.ok (some converted)) fun v => Except.bind (entries.mapM _) fun values => Except.ok (v :: values))
        cases entries.mapM fun e => settle (convert e) (read e) with
        | error error => rfl
        | ok values => rfl

/-- The outcome of a binding whose entries read what `read` gives: the first error of a
converter, or one detail for each missing required field, or the DTO with the converted
values. -/
def outcome (read : PlanEntry → Option (Value A)) (resolve : Resolve A E) (converters : List ConverterLike)
    (entries : List PlanEntry) (value : Dto A) : Except (BindingError E) (Dto A) :=
  match (resolveAll resolve converters).bind fun globalConverters =>
      entries.mapM fun e => settle (e.convert resolve globalConverters) (read e) with
  | .error error => .error (.thrown error)
  | .ok values =>
    match missing read entries with
    | [] => .ok ((entries.zip values).foldl put value)
    | absent => .error (.badRequest (text "Request binding failed.") (absent.map fun e =>
        ⟨text "MISSING_FIELD", some e.fieldName,
          text "Missing required " ++ sourceName e.source ++ text " field " ++ e.sourceKey ++ text ".", e.source⟩))

theorem outcome_eq {read : PlanEntry → Option (Value A)} {resolve : Resolve A E} {converters : List ConverterLike}
    {entries : List PlanEntry} {value : Dto A} :
    outcome read resolve converters entries value =
      match (resolveAll resolve converters).bind fun globalConverters =>
          entries.mapM fun e => settle (e.convert resolve globalConverters) (read e) with
      | .error error => .error (.thrown error)
      | .ok values => finish ((entries.zip values).foldl put value, (missing read entries).map missingField) := by
  unfold outcome
  generalize ((resolveAll resolve converters).bind fun globalConverters =>
    entries.mapM fun e => settle (e.convert resolve globalConverters) (read e)) = result
  cases result with
  | error error => rfl
  | ok values =>
    dsimp only
    cases missing read entries with
    | nil => rfl
    | cons e absent => rfl

/-- What binding promises: the outcome for what the client sent. -/
def specified (resolve : Resolve A E) (converters : List ConverterLike) (schema : DtoBindingSchema) (policy : InputPolicyOptions)
    (value : Dto A) (request : Request A) : Except (BindingError E) (Dto A) :=
  (prepareBindingRequest request (bodyKeys schema) policy).bind fun _ =>
    outcome (received host request) resolve converters (entriesOf schema) value

theorem bindConverted_eq (resolve : Resolve A E) (globalConverters : List (Converter A E)) (request : Request A)
    (entries : List PlanEntry) (value : Dto A) :
    bindConverted host resolve globalConverters request entries value =
      (entries.mapM fun e => settle (e.convert resolve globalConverters) (e.read host request)).map fun values =>
        ((entries.zip values).foldl put value, (missing (fun e => e.read host request) entries).map missingField) :=
  loop_eq (fun e => e.read host request) (fun e => e.convert resolve globalConverters) entries value []

/-- Converters that give back what they are given. -/
def Identities (resolve : Resolve A E) : Prop :=
  ∀ c, ∃ converter, resolve c = .ok converter ∧ ∀ f ∈ converter, ∀ v target, f v target = .ok v

theorem convert_identity {resolve : Resolve A E} (identities : Identities resolve) {globalConverters : List (Converter A E)}
    (all : ∀ f ∈ globalConverters, ∀ v target, f v target = .ok v) (e : PlanEntry) (v : Value A) :
    e.convert resolve globalConverters v = .ok v := by
  have globals : globalConverters.foldlM (fun v (convert : Converter A E) => convert v e.target) v = .ok v := by
    induction globalConverters with
    | nil => rfl
    | cons f globalConverters ih =>
      rw [List.foldlM_cons, all f List.mem_cons_self]
      exact ih fun g mem => all g (List.mem_cons_of_mem _ mem)
  rw [PlanEntry.convert, globals]
  cases own : e.converter with
  | none => rfl
  | some c =>
    obtain ⟨converter, resolved, identity⟩ := identities c
    show (resolve c).bind _ = _
    rw [resolved]
    cases converter with
    | none => rfl
    | some f => exact identity f rfl v e.target

theorem resolveAll_identity {resolve : Resolve A E} (identities : Identities resolve) (converters : List ConverterLike) :
    ∃ globalConverters, resolveAll resolve converters = .ok globalConverters ∧
      ∀ f ∈ globalConverters, ∀ v target, f v target = .ok v := by
  induction converters with
  | nil => exact ⟨[], rfl, nofun⟩
  | cons c converters ih =>
    obtain ⟨globalConverters, resolvedAll, all⟩ := ih
    obtain ⟨converter, resolved, identity⟩ := identities c
    rw [resolveAll] at resolvedAll ⊢
    rw [List.mapM_cons, resolved]
    cases rest : converters.mapM resolve with
    | error error =>
      rw [rest] at resolvedAll
      cases resolvedAll
    | ok resolvedRest =>
      rw [rest] at resolvedAll
      obtain rfl := Except.ok.inj resolvedAll
      refine ⟨_, rfl, fun f mem => ?_⟩
      rw [List.filterMap_cons] at mem
      cases converter with
      | none => exact all f mem
      | some g =>
        rcases List.mem_cons.mp mem with rfl | mem
        · exact identity _ rfl
        · exact all f mem

theorem mapM_settled {read : PlanEntry → Option (Value A)} {convert : PlanEntry → Value A → Except E (Value A)}
    {entries : List PlanEntry} (same : ∀ e ∈ entries, ∀ v, convert e v = .ok v) :
    (entries.mapM fun e => settle (convert e) (read e)) = .ok (entries.map read) := by
  induction entries with
  | nil => rfl
  | cons e entries ih =>
    have one : settle (convert e) (read e) = .ok (read e) := by
      cases read e with
      | none => rfl
      | some v => rw [settle, same e List.mem_cons_self]; rfl
    rw [List.mapM_cons, one, ih fun e mem => same e (List.mem_cons_of_mem _ mem)]
    rfl

theorem bindDirectly_eq (request : Request A) (entries : List PlanEntry) (value : Dto A) :
    bindDirectly host request entries value = ((entries.zip (entries.map fun e => e.read host request)).foldl put value,
      (missing (fun e => e.read host request) entries).map missingField) := by
  have loop (bound : Bound A) : entries.foldl (fun (bound : Bound A) entry =>
        match entry.read host request with
        | none => if entry.optional then bound else (bound.1, bound.2 ++ [missingField entry])
        | some rawValue => (bound.1.set entry.propertyKey rawValue, bound.2)) bound =
      ((entries.zip (entries.map fun e => e.read host request)).foldl put bound.1,
        bound.2 ++ (missing (fun e => e.read host request) entries).map missingField) := by
    induction entries generalizing bound with
    | nil => simp [missing]
    | cons e entries ih =>
      rw [List.foldl_cons, ih, List.map_cons, List.zip_cons_cons, List.foldl_cons]
      cases found : e.read host request with
      | none => by_cases optional : e.optional <;> simp [missing, put, found, optional]
      | some raw => simp [missing, put, found]
  exact loop (value, [])

theorem outcome_same {read : PlanEntry → Option (Value A)} {resolve : Resolve A E} {converters : List ConverterLike}
    {globalConverters : List (Converter A E)} (resolved : resolveAll resolve converters = .ok globalConverters)
    {entries : List PlanEntry} (same : ∀ e ∈ entries, ∀ v, e.convert resolve globalConverters v = .ok v) (value : Dto A) :
    outcome read resolve converters entries value =
      finish ((entries.zip (entries.map read)).foldl put value, (missing read entries).map missingField) := by
  have settled : _ = Except.ok (entries.map read) := mapM_settled same
  simp only [outcome_eq, resolved, Except.bind, settled]

theorem bind_eq (resolve : Resolve A E) (converters : List ConverterLike) (schema : DtoBindingSchema) (policy : InputPolicyOptions)
    (value : Dto A) (request : Request A) :
    bind host resolve converters schema policy value request =
      (prepareBindingRequest request (bodyKeys schema) policy).bind fun prepared =>
        outcome (fun e => e.read host prepared) resolve converters (entriesOf schema) value := by
  rw [bind]
  refine congrArg _ (funext fun prepared => ?_)
  split
  next plain =>
    have none_ : converters = [] := List.length_eq_zero_iff.mp plain.1
    have fields : ∀ e ∈ entriesOf schema, ∀ v, e.convert resolve [] v = .ok v := by
      intro e mem v
      have own : e.converter = none := by simpa using List.any_eq_false.mp plain.2 e mem
      rw [PlanEntry.convert, own]
      rfl
    rw [none_, outcome_same rfl fields, bindDirectly_eq]
  next =>
    rw [outcome_eq]
    cases resolveAll resolve converters with
    | error error => rfl
    | ok globalConverters =>
      simp only [Except.bind, bindConverted_eq]
      cases (entriesOf schema).mapM fun e => settle (e.convert resolve globalConverters) (e.read host prepared) with
      | error error => rfl
      | ok values => rfl

theorem outcome_congr {read read' : PlanEntry → Option (Value A)} {entries : List PlanEntry}
    (same : ∀ e ∈ entries, read e = read' e) (resolve : Resolve A E) (converters : List ConverterLike) (value : Dto A) :
    outcome read resolve converters entries value = outcome read' resolve converters entries value := by
  have missing_ : missing read entries = missing read' entries :=
    List.filter_congr fun e mem => by rw [same e mem]
  have settled (globalConverters : List (Converter A E)) :
      (entries.mapM fun e => settle (e.convert resolve globalConverters) (read e)) =
        entries.mapM fun e => settle (e.convert resolve globalConverters) (read' e) := by
    clear missing_
    induction entries with
    | nil => rfl
    | cons e entries ih =>
      rw [List.mapM_cons, List.mapM_cons, same e List.mem_cons_self, ih fun e mem => same e (List.mem_cons_of_mem _ mem)]
  simp only [outcome_eq, missing_, settled]

/-! ## Exactness -/

/-- A converter that throws on what was not sent. -/
def refuseBuiltin : Converter A Unit := fun v _ =>
  match v with
  | .builtin _ => .error ()
  | v => .ok v

theorem received_sent {request : Request A} {e : PlanEntry} {v : Value A} (h : received host request e = some v)
    (target : ConverterTarget) : refuseBuiltin v target = .ok v := by
  have record {d : Dictionary A} {key : JsString} (h : d.sent key = some v) : refuseBuiltin v target = .ok v := by
    obtain ⟨a, -, rfl⟩ := Option.map_eq_some_iff.mp h
    rfl
  rw [received] at h
  split at h
  · exact record h
  · exact record h
  · obtain ⟨a, -, rfl⟩ := Option.map_eq_some_iff.mp h
    rfl
  · exact record h
  · split at h
    · exact record h
    · cases h
  · obtain ⟨a, -, rfl⟩ := Option.map_eq_some_iff.mp h
    rfl

def refusing : Resolve A Unit := fun _ => .ok (some refuseBuiltin)

theorem convert_refusing (e : PlanEntry) (v : Value A) :
    e.convert refusing [refuseBuiltin] v = refuseBuiltin v e.target := by
  rw [PlanEntry.convert]
  cases v with
  | builtin name => rfl
  | data a => cases e.converter <;> rfl
  | header h => cases e.converter <;> rfl
  | files l => cases e.converter <;> rfl

theorem outcome_refused {read : PlanEntry → Option (Value A)} {entries : List PlanEntry} {e : PlanEntry} (mem : e ∈ entries)
    {name : JsString} (found : read e = some (.builtin name)) (value : Dto A) :
    outcome read refusing [.converter 0] entries value = .error (.thrown ()) := by
  have thrown : (entries.mapM fun e => settle (e.convert refusing [refuseBuiltin]) (read e)) = .error () := by
    induction entries with
    | nil => cases mem
    | cons first entries ih =>
      rw [List.mapM_cons]
      rcases List.mem_cons.mp mem with rfl | mem
      · rw [found, settle, convert_refusing]
        rfl
      · rw [ih mem]
        cases settle (first.convert refusing [refuseBuiltin]) (read first) with
        | error error => rfl
        | ok v => rfl
  have resolved : resolveAll (refusing : Resolve A Unit) [.converter 0] = .ok [refuseBuiltin] := rfl
  simp only [outcome_eq, resolved, Except.bind, thrown]

theorem outcome_received (request : Request A) (entries : List PlanEntry) (value : Dto A) :
    outcome (received host request) refusing [.converter 0] entries value ≠ .error (.thrown ()) := by
  have settled : (entries.mapM fun e => settle (e.convert refusing [refuseBuiltin]) (received host request e)) =
      .ok (entries.map (received host request)) := by
    induction entries with
    | nil => rfl
    | cons e entries ih =>
      have one : settle (e.convert refusing [refuseBuiltin]) (received host request e) = .ok (received host request e) := by
        cases sent : received host request e with
        | none => rfl
        | some v =>
          rw [settle, convert_refusing, received_sent host sent]
          rfl
      rw [List.mapM_cons, one, ih]
      rfl
  have resolved : resolveAll (refusing : Resolve A Unit) [.converter 0] = .ok [refuseBuiltin] := rfl
  simp only [outcome_eq, resolved, Except.bind, settled, finish]
  split <;> exact nofun

/-- Requests that differ in the body only, and there in no declared key. -/
def AgreeOnDeclared (schema : DtoBindingSchema) (first second : Request A) : Prop :=
  ∃ d d', first = { second with body := .plain d } ∧ second.body = .plain d' ∧
    ∀ key ∈ bodyKeys schema, d.own.get key = d'.own.get key

theorem received_agree {schema : DtoBindingSchema} {first second : Request A} (agree : AgreeOnDeclared schema first second)
    {e : PlanEntry} (mem : e ∈ entriesOf schema) : received host first e = received host second e := by
  obtain ⟨d, d', rfl, body, same⟩ := agree
  unfold received
  cases source : e.source with
  | body =>
    dsimp only
    rw [body]
    dsimp only
    rw [Dictionary.sent, Dictionary.sent, same _ (mem_bodyKeys mem source)]
  | path => rfl
  | query => rfl
  | cookie => rfl
  | header => rfl
  | files => rfl

/-- Whatever the converters, a DTO is bound to what the client sent exactly if the body
is refused or no entry reads an inherited property. Undeclared keys of an accepted body
change nothing, a body is refused as the policy says, and converters that are identities
give the result of the loop without converters. -/
theorem bind_sent_iff (schema : DtoBindingSchema) (policy : InputPolicyOptions) (value : Dto A) (request : Request A) :
    ((∀ (E : Type) (resolve : Resolve A E) (converters : List ConverterLike),
        bind host resolve converters schema policy value request =
          specified host resolve converters schema policy value request) ↔
      Refused (bodyKeys schema) policy request.body ∨ ∀ e ∈ entriesOf schema, ¬ Inherits policy request e) ∧
    ∀ (E : Type) (resolve : Resolve A E) (converters : List ConverterLike),
      ((∃ details message, prepareBindingRequest (E := E) request (bodyKeys schema) policy = .error (.badRequest message details)) ↔
        Refused (bodyKeys schema) policy request.body) ∧
      (∀ other, AgreeOnDeclared schema request other → ¬ Refused (bodyKeys schema) policy request.body →
        ¬ Refused (bodyKeys schema) policy other.body →
        specified host resolve converters schema policy value request =
          specified host resolve converters schema policy value other) ∧
      (Identities resolve → bind host resolve converters schema policy value request =
        (prepareBindingRequest request (bodyKeys schema) policy).bind fun prepared =>
          finish (bindDirectly host prepared (entriesOf schema) value)) := by
  refine ⟨⟨fun exact_ => ?_, fun condition E resolve converters => ?_⟩, fun E resolve converters => ⟨?_, ?_, ?_⟩⟩
  · by_contra neither
    obtain ⟨accepted, some_⟩ := not_or.mp neither
    push Not at some_
    obtain ⟨e, mem, inherits⟩ := some_
    obtain ⟨refused, -⟩ | ⟨-, body, made, -⟩ := prepare_cases (E := Unit) request (bodyKeys schema) policy
    · exact accepted refused
    · have same := exact_ Unit refusing [.converter 0]
      rw [bind_eq, specified, made] at same
      refine outcome_received host request (entriesOf schema) value (same.symm.trans ?_)
      exact outcome_refused mem ((read_accepted host made mem).2 inherits).1 value
  · rw [bind_eq, specified]
    obtain ⟨-, _, _, refused⟩ | ⟨accepted, body, made, -⟩ := prepare_cases (E := E) request (bodyKeys schema) policy
    · rw [refused]
      rfl
    · rw [made]
      have own := condition.resolve_left accepted
      exact outcome_congr (fun e mem => (read_accepted host made mem).1 (own e mem)) resolve converters value
  · obtain ⟨refused, message, details, failed⟩ | ⟨accepted, body, made, -⟩ :=
      prepare_cases (E := E) request (bodyKeys schema) policy
    · exact ⟨fun _ => refused, fun _ => ⟨details, message, failed⟩⟩
    · refine ⟨fun ⟨_, _, failed⟩ => ?_, fun refused => absurd refused accepted⟩
      rw [made] at failed
      cases failed
  · intro other agree accepted accepted'
    obtain ⟨refused, -⟩ | ⟨-, _, made, -⟩ := prepare_cases (E := E) request (bodyKeys schema) policy
    · exact absurd refused accepted
    obtain ⟨refused, -⟩ | ⟨-, _, made', -⟩ := prepare_cases (E := E) other (bodyKeys schema) policy
    · exact absurd refused accepted'
    rw [specified, specified, made, made']
    exact outcome_congr (fun e mem => received_agree host agree mem) resolve converters value
  · intro identities
    obtain ⟨globalConverters, resolved, all⟩ := resolveAll_identity identities converters
    rw [bind_eq]
    refine congrArg _ (funext fun prepared => ?_)
    rw [outcome_same resolved (fun e _ v => convert_identity identities all e v), bindDirectly_eq]

end

/-! ## A field named `constructor` -/

/-- `@FromPath() constructor: string` -/
def constructorField : DtoBindingSchema := ⟨[(.named (text "constructor"), ⟨none, none, false, .path⟩)], by decide⟩

def emptyRequest : Request JsString := ⟨⟨.empty, true⟩, ⟨.empty, true⟩, ⟨.empty, true⟩, [], .absent, none⟩

/-- Without any parameter the required field is bound to `Object`. -/
theorem constructor_bound :
    bind .same (E := Unit) (fun _ => .ok none) [] constructorField ⟨none, none⟩ .empty emptyRequest =
        .ok (OrderedMap.empty.set (.named (text "constructor")) (.builtin (text "constructor"))) ∧
      specified .same (E := Unit) (fun _ => .ok none) [] constructorField ⟨none, none⟩ .empty emptyRequest =
        .error (.badRequest (text "Request binding failed.") [⟨text "MISSING_FIELD", some (text "constructor"),
          text "Missing required path field constructor.", .path⟩]) := by
  exact ⟨rfl, rfl⟩

end Fluo.Http.Binding
