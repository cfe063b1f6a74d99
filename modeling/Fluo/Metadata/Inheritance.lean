import Mathlib.Data.List.Induction
import Fluo.Metadata.Decorators

/-!
# Metadata along a class hierarchy

What a class declares is added to what it inherits, and nothing else reaches it:
of the validation metadata this holds always, of the controller, route and binding
metadata exactly when no class adds to what an ancestor of it has.
-/

namespace Fluo.Metadata

open Js Prototypes

/-! ## What a class adds to what it inherits -/

def declared {δ : Type} (declares : Decorator → Option δ) (own : List Decorator) : Option δ :=
  own.foldl (fun value decorator => (declares decorator).or value) none

/-- A field has the own value of the class, or else the inherited one. -/
def Field {μ β : Type} (field : μ → β) (own : Option β) (inherited result : Option μ) : Prop :=
  ∀ m, result = some m → (∀ v, own = some v → field m = v) ∧
    (own = none → ∀ above, inherited = some above → field m = field above)

/-- A list has the own entries of the class, and the inherited ones. -/
def Entries {μ γ : Type} (field : μ → List γ) (own : List γ) (inherited result : Option μ) : Prop :=
  ∀ m, result = some m → (∀ x ∈ own, x ∈ field m) ∧ ∀ above, inherited = some above → ∀ x ∈ field above, x ∈ field m

def Decorator.basePath? : Decorator → Option JsString
  | .controller basePath => some basePath
  | _ => none

def Decorator.version? : Decorator → Option (Option JsString)
  | .version label => some (some label)
  | _ => none

def Decorator.guards : Decorator → List Reference
  | .useGuards guards => guards
  | _ => []

def Decorator.interceptors : Decorator → List Reference
  | .useInterceptors interceptors => interceptors
  | _ => []

/-- A decorator of the method of this name. -/
def Decorator.route? (name : PropertyKey) : Decorator → Option RouteDecorator
  | .route name' decorator => if name' = name then some decorator else none
  | _ => none

def Decorator.binding? (name : PropertyKey) : Decorator → Option BindingDecorator
  | .binding name' decorator => if name' = name then some decorator else none
  | _ => none

def Decorator.fieldRules (name : PropertyKey) : Decorator → List Reference
  | .fieldRule name' rule => if name' = name then [rule] else []
  | _ => []

def Decorator.classRules : Decorator → List Reference
  | .classRule rule => [rule]
  | _ => []

namespace RouteDecorator

def method? : RouteDecorator → Option HttpMethod
  | .route method _ _ => some method
  | _ => none

def path? : RouteDecorator → Option JsString
  | .route _ path _ => some path
  | _ => none

def request? : RouteDecorator → Option (Option Reference)
  | .requestDto dto => some (some dto)
  | _ => none

def successStatus? : RouteDecorator → Option (Option Nat)
  | .httpCode status => some (some status)
  | _ => none

def version? : RouteDecorator → Option (Option JsString)
  | .version label => some (some label)
  | _ => none

def redirect? : RouteDecorator → Option (Option (JsString × Option Nat))
  | .redirect url statusCode => some (some (url, statusCode))
  | _ => none

def produces? : RouteDecorator → Option (List JsString)
  | .route _ _ mediaTypes => mediaTypes.map normalizeProducesMediaTypes
  | .produces mediaTypes => some (normalizeProducesMediaTypes mediaTypes)
  | _ => none

def headers : RouteDecorator → List (JsString × JsString)
  | .header name value => [(name, value)]
  | _ => []

def guards : RouteDecorator → List Reference
  | .useGuards guards => guards
  | _ => []

def interceptors : RouteDecorator → List Reference
  | .useInterceptors interceptors => interceptors
  | _ => []

end RouteDecorator

namespace BindingDecorator

def source? : BindingDecorator → Option MetadataSource
  | .bind source _ => some source
  | _ => none

def key? : BindingDecorator → Option (Option JsString)
  | .bind _ key => some key
  | _ => none

def optional? : BindingDecorator → Option (Option Bool)
  | .optional => some (some true)
  | _ => none

def converter? : BindingDecorator → Option (Option Reference)
  | .convert converter => some (some converter)
  | _ => none

end BindingDecorator

/-- The value of a property in a schema. -/
def find? {β : Type} (schema : List (PropertyKey × β)) (name : PropertyKey) : Option β := OrderedMap.find name schema

/-- A class has what it inherits and what its own decorators declare. -/
structure Keeps (own : List Decorator) (inherited result : Results) : Prop where
  controller : inherited.controller ≠ none ∨ (∃ d ∈ own, updateController d ≠ none) → result.controller ≠ none
  basePath : Field (·.basePath) (declared (·.basePath?) own) inherited.controller result.controller
  version : Field (·.version) (declared (·.version?) own) inherited.controller result.controller
  guards : Entries (·.guards.getD []) (own.flatMap (·.guards)) inherited.controller result.controller
  interceptors : Entries (·.interceptors.getD []) (own.flatMap (·.interceptors)) inherited.controller result.controller
  route : ∀ name, inherited.route name ≠ none ∨ declared (fun d => (d.route? name).bind (·.method?)) own ≠ none →
    result.route name ≠ none
  routeMethod : ∀ name, Field (·.method) (declared (fun d => (d.route? name).bind (·.method?)) own)
    (inherited.route name) (result.route name)
  routePath : ∀ name, Field (·.path) (declared (fun d => (d.route? name).bind (·.path?)) own)
    (inherited.route name) (result.route name)
  routeRequest : ∀ name, Field (·.request) (declared (fun d => (d.route? name).bind (·.request?)) own)
    (inherited.route name) (result.route name)
  routeSuccessStatus : ∀ name, Field (·.successStatus) (declared (fun d => (d.route? name).bind (·.successStatus?)) own)
    (inherited.route name) (result.route name)
  routeVersion : ∀ name, Field (·.version) (declared (fun d => (d.route? name).bind (·.version?)) own)
    (inherited.route name) (result.route name)
  routeRedirect : ∀ name, Field (·.redirect) (declared (fun d => (d.route? name).bind (·.redirect?)) own)
    (inherited.route name) (result.route name)
  routeHeaders : ∀ name, Entries (·.headers.getD []) (own.flatMap fun d => ((d.route? name).map (·.headers)).getD [])
    (inherited.route name) (result.route name)
  routeGuards : ∀ name, Entries (·.guards.getD []) (own.flatMap fun d => ((d.route? name).map (·.guards)).getD [])
    (inherited.route name) (result.route name)
  routeInterceptors : ∀ name,
    Entries (·.interceptors.getD []) (own.flatMap fun d => ((d.route? name).map (·.interceptors)).getD [])
      (inherited.route name) (result.route name)
  produces : ∀ name, result.produces name =
    (declared (fun d => (d.route? name).bind (·.produces?)) own).or (inherited.produces name)
  binding : ∀ name, find? inherited.bindings name ≠ none ∨
    declared (fun d => (d.binding? name).bind (·.source?)) own ≠ none → find? result.bindings name ≠ none
  bindingSource : ∀ name, Field (·.source) (declared (fun d => (d.binding? name).bind (·.source?)) own)
    (find? inherited.bindings name) (find? result.bindings name)
  bindingKey : ∀ name, Field (·.key) (declared (fun d => (d.binding? name).bind (·.key?)) own)
    (find? inherited.bindings name) (find? result.bindings name)
  bindingOptional : ∀ name, Field (·.optional) (declared (fun d => (d.binding? name).bind (·.optional?)) own)
    (find? inherited.bindings name) (find? result.bindings name)
  bindingConverter : ∀ name, Field (·.converter) (declared (fun d => (d.binding? name).bind (·.converter?)) own)
    (find? inherited.bindings name) (find? result.bindings name)
  fieldRules : ∀ name, (find? result.fieldRules name).getD [] =
    (find? inherited.fieldRules name).getD [] ++ own.flatMap (·.fieldRules name)
  classRules : result.classRules = inherited.classRules ++ own.flatMap (·.classRules)

/-! ## Records under updates -/

/-- The record behind what is inherited when the class adds its updates. -/
def extend {key : MetadataKey} (own : List Decorator) (inherited : Option (Entry key)) : Option (Entry key) :=
  if own.filterMap (·.update key) = [] then inherited
  else some (applyAll (own.filterMap (·.update key)) (inherited.getD (Entry.empty key)))

theorem extend_getD {key : MetadataKey} (own : List Decorator) (inherited : Option (Entry key)) :
    (extend own inherited).getD (Entry.empty key) =
      applyAll (own.filterMap (·.update key)) (inherited.getD (Entry.empty key)) := by
  unfold extend
  split
  · next idle => rw [idle]; rfl
  · rfl

section Folds

variable {ρ β γ : Type} {update : Decorator → Option (ρ → ρ)}

/-- A field that each update sets to what its decorator declares. -/
theorem field_applyAll (field : ρ → β) {declares : Decorator → Option β}
    (law : ∀ d r, field ((update d).getD id r) = (declares d).getD (field r)) (own : List Decorator) (r : ρ) :
    field (applyAll (own.filterMap update) r) = (declared declares own).getD (field r) := by
  induction own using List.reverseRecOn with
  | nil => rfl
  | append_singleton own d ih =>
    have law := law d (applyAll (own.filterMap update) r)
    rw [declared, List.foldl_append]
    change _ = ((declares d).or (declared declares own)).getD (field r)
    rw [applyAll, List.filterMap_append, List.foldl_append]
    cases e : update d with
    | none =>
      rw [e] at law
      cases h : declares d with
      | none => simpa [e, applyAll] using ih
      | some v =>
        rw [h] at law
        simpa [e, applyAll] using law
    | some f =>
      rw [e] at law
      cases h : declares d with
      | none =>
        rw [h] at law
        simp only [Option.none_or, ← ih]
        simpa [e, applyAll] using law
      | some v =>
        rw [h] at law
        simpa [e, applyAll] using law

/-- A list to which each update adds what its decorator declares. -/
theorem list_applyAll (field : ρ → List γ) {declares : Decorator → List γ}
    (law : ∀ d r, field ((update d).getD id r) = field r ++ declares d) (own : List Decorator) (r : ρ) :
    field (applyAll (own.filterMap update) r) = field r ++ own.flatMap declares := by
  induction own generalizing r with
  | nil => simp [applyAll]
  | cons d rest ih =>
    have law := law d r
    rw [List.flatMap_cons, ← List.append_assoc, ← law]
    cases e : update d with
    | none => simpa [e] using ih r
    | some f => simpa [e, applyAll] using ih (f r)

theorem mem_applyAll (field : ρ → List γ) {declares : Decorator → List γ}
    (law : ∀ d r x, x ∈ field ((update d).getD id r) ↔ x ∈ field r ∨ x ∈ declares d) (own : List Decorator) (r : ρ)
    (x : γ) : x ∈ field (applyAll (own.filterMap update) r) ↔ x ∈ field r ∨ x ∈ own.flatMap declares := by
  induction own generalizing r with
  | nil => simp [applyAll]
  | cons d rest ih =>
    have law := law d r x
    rw [List.flatMap_cons, List.mem_append, ← or_assoc, ← law]
    cases e : update d with
    | none => simpa [e] using ih r
    | some f => simpa [e, applyAll] using ih (f r)

end Folds

theorem mem_addNew {γ : Type} [DecidableEq γ] {merged : List γ} {value x : γ} :
    x ∈ addNew merged value ↔ x ∈ merged ∨ x = value := by
  unfold addNew
  split
  · next old =>
    constructor
    · exact Or.inl
    · rintro (h | rfl)
      · exact h
      · exact old
  · simp

theorem mem_mergeUnique {γ : Type} [DecidableEq γ] {existing : Option (List γ)} {values : List γ} {x : γ} :
    x ∈ mergeUnique existing values ↔ x ∈ existing.getD [] ∨ x ∈ values := by
  unfold mergeUnique
  generalize existing.getD [] = merged
  induction values generalizing merged with
  | nil => simp
  | cons value rest ih => rw [List.foldl_cons, ih, mem_addNew, List.mem_cons, or_assoc]

theorem mem_mergeStored {standard : Option (List Reference)} {x : Reference} :
    x ∈ (mergeStored none standard).getD [] ↔ x ∈ standard.getD [] := by
  unfold mergeStored
  split
  · next empty => simp [empty.2]
  · simp [mem_mergeUnique]

theorem declared_eq_none {δ : Type} {declares : Decorator → Option δ} {own : List Decorator} :
    declared declares own = none ↔ ∀ d ∈ own, declares d = none := by
  induction own using List.reverseRecOn with
  | nil => simp [declared]
  | append_singleton own d ih =>
    rw [declared, List.foldl_append]
    change (declares d).or (declared declares own) = none ↔ _
    rw [Option.or_eq_none_iff, ih]
    simp only [List.mem_append, List.mem_singleton, or_imp, forall_and, forall_eq]
    exact and_comm

theorem declared_map {δ β : Type} (f : δ → β) (declares : Decorator → Option δ) (own : List Decorator) :
    declared (fun d => (declares d).map f) own = (declared declares own).map f := by
  induction own using List.reverseRecOn with
  | nil => rfl
  | append_singleton own d ih =>
    rw [declared, List.foldl_append, declared, List.foldl_append]
    change ((declares d).map f).or (declared _ own) = ((declares d).or (declared declares own)).map f
    rw [ih]
    cases declares d <;> rfl

/-- A field that each update sets, or leaves when its decorator declares nothing. -/
theorem option_applyAll {ρ β : Type} {update : Decorator → Option (ρ → ρ)} (field : ρ → Option β)
    {declares : Decorator → Option β} (law : ∀ d r, field ((update d).getD id r) = (declares d).or (field r))
    (own : List Decorator) (r : ρ) :
    field (applyAll (own.filterMap update) r) = (declared declares own).or (field r) := by
  have total : ∀ d r, field ((update d).getD id r) = ((declares d).map some).getD (field r) := by
    intro d r
    rw [law]
    cases declares d <;> rfl
  rw [field_applyAll field total, declared_map]
  cases declared declares own <;> rfl

/-! ## Controllers -/

section Controllers

variable {records : Records} {m : ControllerMetadata}

/-- The controller record that the metadata are read from. -/
def controllerAt (records : Records) : ControllerRecord := (records .controller).getD (Entry.empty .controller)

theorem controllerAt_extend (own : List Decorator) (up : Records) :
    controllerAt (fun key => extend own (up key)) = applyAll (own.filterMap updateController) (controllerAt up) :=
  extend_getD own (up .controller)

theorem getControllerMetadata_some (h : getControllerMetadata records = some m) :
    m.basePath = (controllerAt records).basePath.getD [] ∧ m.version = (controllerAt records).version ∧
      m.guards = mergeStored none (controllerAt records).guards ∧
      m.interceptors = mergeStored none (controllerAt records).interceptors := by
  unfold getControllerMetadata at h
  unfold controllerAt
  cases e : records .controller with
  | none => rw [e] at h; cases h
  | some record =>
    rw [e] at h
    cases h
    exact ⟨rfl, rfl, rfl, rfl⟩

theorem controller_kept {own : List Decorator} {up : Records}
    (h : getControllerMetadata up ≠ none ∨ ∃ d ∈ own, updateController d ≠ none) :
    getControllerMetadata (fun key => extend own (up key)) ≠ none := by
  simp only [getControllerMetadata, ne_eq, Option.map_eq_none_iff] at h ⊢
  unfold extend
  split
  · next idle =>
    refine h.resolve_right ?_
    rintro ⟨d, hd, writes⟩
    exact writes (List.filterMap_eq_nil_iff.mp idle d hd)
  · nofun

theorem controller_field {β : Type} {own : List Decorator} {up : Records} {field : ControllerMetadata → β}
    (at_record : ControllerRecord → β) {declares : Decorator → Option β}
    (reads : ∀ records m, getControllerMetadata records = some m → field m = at_record (controllerAt records))
    (law : ∀ d r, at_record ((updateController d).getD id r) = (declares d).getD (at_record r)) :
    Field field (declared declares own) (getControllerMetadata up)
      (getControllerMetadata fun key => extend own (up key)) := by
  intro m hm
  rw [reads _ m hm, controllerAt_extend, field_applyAll at_record law]
  refine ⟨fun v hv => by rw [hv]; rfl, fun none above habove => ?_⟩
  rw [none, reads _ above habove]
  rfl

theorem controller_entries {own : List Decorator} {up : Records} {field : ControllerMetadata → List Reference}
    (at_record : ControllerRecord → List Reference) {declares : Decorator → List Reference}
    (reads : ∀ records m, getControllerMetadata records = some m → ∀ x, x ∈ field m ↔ x ∈ at_record (controllerAt records))
    (law : ∀ d r x, x ∈ at_record ((updateController d).getD id r) ↔ x ∈ at_record r ∨ x ∈ declares d) :
    Entries field (own.flatMap declares) (getControllerMetadata up)
      (getControllerMetadata fun key => extend own (up key)) := by
  intro m hm
  have all (x : Reference) : x ∈ field m ↔ x ∈ at_record (controllerAt up) ∨ x ∈ own.flatMap declares := by
    rw [reads _ m hm, controllerAt_extend, mem_applyAll at_record law]
  refine ⟨fun x hx => (all x).mpr (Or.inr hx), fun above habove x hx => (all x).mpr (Or.inl ?_)⟩
  exact (reads _ above habove x).mp hx

end Controllers

/-! ## Routes -/

section Routes

variable {records : Records} {name : PropertyKey} {own : List Decorator} {up : Records}

def routeOf (name : PropertyKey) (routes : OrderedMap PropertyKey RouteRecord) : RouteRecord :=
  (routes.get name).getD {}

/-- The route record that the metadata are read from. -/
def routeAt (records : Records) (name : PropertyKey) : RouteRecord :=
  routeOf name ((records .route).getD (Entry.empty .route))

theorem routeAt_extend : routeAt (fun key => extend own (up key)) name =
    routeOf name (applyAll (own.filterMap updateRoutes) ((up .route).getD (Entry.empty .route))) :=
  congrArg (routeOf name) (extend_getD own (up .route))

theorem routeOf_update (d : Decorator) (routes : OrderedMap PropertyKey RouteRecord) :
    routeOf name ((updateRoutes d).getD id routes) = ((d.route? name).map (·.apply)).getD id (routeOf name routes) := by
  cases d with
  | route name' decorator =>
    simp only [updateRoutes, Decorator.route?, Option.getD_some, routeOf, OrderedMap.get_set]
    by_cases same : name' = name
    · simp [same]
    · simp [same, Ne.symm same]
  | controller | version | useGuards | useInterceptors | binding | fieldRule | classRule => rfl

theorem route_field {β : Type} (field : RouteRecord → β) {declares : RouteDecorator → Option β}
    (law : ∀ d r, field (RouteDecorator.apply d r) = (declares d).getD (field r)) :
    field (routeAt (fun key => extend own (up key)) name) =
      (declared (fun d => (d.route? name).bind declares) own).getD (field (routeAt up name)) := by
  rw [routeAt_extend]
  refine field_applyAll (fun routes => field (routeOf name routes)) (fun d routes => ?_) own _
  rw [routeOf_update]
  cases d.route? name with
  | none => rfl
  | some decorator => exact law decorator _

theorem route_option {β : Type} (field : RouteRecord → Option β) {declares : RouteDecorator → Option β}
    (law : ∀ d r, field (RouteDecorator.apply d r) = (declares d).or (field r)) :
    field (routeAt (fun key => extend own (up key)) name) =
      (declared (fun d => (d.route? name).bind declares) own).or (field (routeAt up name)) := by
  rw [routeAt_extend]
  refine option_applyAll (fun routes => field (routeOf name routes)) (fun d routes => ?_) own _
  rw [routeOf_update]
  cases d.route? name with
  | none => rfl
  | some decorator => exact law decorator _

theorem route_mem {γ : Type} (field : RouteRecord → List γ) {declares : RouteDecorator → List γ}
    (law : ∀ d r x, x ∈ field (RouteDecorator.apply d r) ↔ x ∈ field r ∨ x ∈ declares d) (x : γ) :
    x ∈ field (routeAt (fun key => extend own (up key)) name) ↔
      x ∈ field (routeAt up name) ∨ x ∈ own.flatMap fun d => ((d.route? name).map declares).getD [] := by
  rw [routeAt_extend]
  refine mem_applyAll (fun routes => field (routeOf name routes)) (fun d routes x => ?_) own _ x
  rw [routeOf_update]
  cases d.route? name with
  | none => simp
  | some decorator => exact law decorator _ x

/-- A route is there when its record has a method and a path. -/
theorem getRouteMetadata_eq : getRouteMetadata records name =
    (routeAt records name).method.bind fun method => (routeAt records name).path.map fun path =>
      { guards := mergeStored none (routeAt records name).guards, headers := (routeAt records name).headers,
        interceptors := mergeStored none (routeAt records name).interceptors, method := method, path := path,
        redirect := (routeAt records name).redirect, request := (routeAt records name).request,
        successStatus := (routeAt records name).successStatus, version := (routeAt records name).version } := by
  unfold getRouteMetadata getRouteRecord routeAt routeOf
  cases records .route with
  | none => rfl
  | some routes =>
    simp only [Option.bind_some, Option.getD_some]
    cases OrderedMap.get routes name <;> rfl

structure ReadsRoute (m : RouteMetadata) (r : RouteRecord) : Prop where
  method : r.method = some m.method
  path : r.path = some m.path
  guards : m.guards = mergeStored none r.guards
  headers : m.headers = r.headers
  interceptors : m.interceptors = mergeStored none r.interceptors
  redirect : m.redirect = r.redirect
  request : m.request = r.request
  successStatus : m.successStatus = r.successStatus
  version : m.version = r.version

theorem readsRoute {m : RouteMetadata} (h : getRouteMetadata records name = some m) : ReadsRoute m (routeAt records name) := by
  rw [getRouteMetadata_eq] at h
  obtain ⟨method, hmethod, h⟩ := Option.bind_eq_some_iff.mp h
  obtain ⟨path, hpath, rfl⟩ := Option.map_eq_some_iff.mp h
  exact ⟨hmethod, hpath, rfl, rfl, rfl, rfl, rfl, rfl, rfl⟩

theorem getRouteMetadata_ne_none :
    getRouteMetadata records name ≠ none ↔ (routeAt records name).method ≠ none ∧ (routeAt records name).path ≠ none := by
  rw [getRouteMetadata_eq]
  cases (routeAt records name).method <;> cases (routeAt records name).path <;> simp

theorem route_single {β : Type} {field : RouteMetadata → β} (at_record : RouteRecord → β)
    {declares : RouteDecorator → Option β} (reads : ∀ m r, ReadsRoute m r → field m = at_record r)
    (law : ∀ d r, at_record (RouteDecorator.apply d r) = (declares d).getD (at_record r)) :
    Field field (declared (fun d => (d.route? name).bind declares) own) (getRouteMetadata up name)
      (getRouteMetadata (fun key => extend own (up key)) name) := by
  intro m hm
  rw [reads _ _ (readsRoute hm), route_field at_record law]
  refine ⟨fun v hv => by rw [hv]; rfl, fun none above habove => ?_⟩
  rw [none, reads _ _ (readsRoute habove)]
  rfl

theorem route_required {β : Type} {field : RouteMetadata → β} (at_record : RouteRecord → Option β)
    {declares : RouteDecorator → Option β} (reads : ∀ m r, ReadsRoute m r → at_record r = some (field m))
    (law : ∀ d r, at_record (RouteDecorator.apply d r) = (declares d).or (at_record r)) :
    Field field (declared (fun d => (d.route? name).bind declares) own) (getRouteMetadata up name)
      (getRouteMetadata (fun key => extend own (up key)) name) := by
  intro m hm
  have value := reads _ _ (readsRoute hm)
  rw [route_option at_record law] at value
  refine ⟨fun v hv => ?_, fun none above habove => ?_⟩
  · rw [hv] at value
    exact (Option.some.inj value).symm
  · rw [none, Option.none_or, reads _ _ (readsRoute habove)] at value
    exact (Option.some.inj value).symm

theorem route_entries {γ : Type} {field : RouteMetadata → List γ} (at_record : RouteRecord → List γ)
    {declares : RouteDecorator → List γ} (reads : ∀ m r, ReadsRoute m r → ∀ x, x ∈ field m ↔ x ∈ at_record r)
    (law : ∀ d r x, x ∈ at_record (RouteDecorator.apply d r) ↔ x ∈ at_record r ∨ x ∈ declares d) :
    Entries field (own.flatMap fun d => ((d.route? name).map declares).getD []) (getRouteMetadata up name)
      (getRouteMetadata (fun key => extend own (up key)) name) := by
  intro m hm
  have all (x : γ) := (reads _ _ (readsRoute hm) x).trans (route_mem at_record law x)
  refine ⟨fun x hx => (all x).mpr (Or.inr hx), fun above habove x hx => (all x).mpr (Or.inl ?_)⟩
  exact (reads _ _ (readsRoute habove) x).mp hx

theorem method_law (d : RouteDecorator) (r : RouteRecord) : (d.apply r).method = d.method?.or r.method := by
  cases d <;> rfl

theorem path_law (d : RouteDecorator) (r : RouteRecord) : (d.apply r).path = d.path?.or r.path := by
  cases d <;> rfl

theorem route_kept (h : getRouteMetadata up name ≠ none ∨
    declared (fun d => (d.route? name).bind (·.method?)) own ≠ none) :
    getRouteMetadata (fun key => extend own (up key)) name ≠ none := by
  rw [getRouteMetadata_ne_none, route_option (·.method) method_law, route_option (·.path) path_law]
  have both : declared (fun d => (d.route? name).bind (·.path?)) own = none →
      declared (fun d => (d.route? name).bind (·.method?)) own = none := by
    intro none
    refine declared_eq_none.mpr fun d hd => ?_
    have nopath := declared_eq_none.mp none d hd
    cases e : d.route? name with
    | none => rfl
    | some decorator =>
      rw [e] at nopath
      cases decorator with
      | route => cases nopath
      | requestDto | produces | httpCode | version | header | redirect | useGuards | useInterceptors => rfl
  rcases h with h | h
  · have above := getRouteMetadata_ne_none.mp h
    simp [Option.or_eq_none_iff, above.1, above.2]
  · have path : declared (fun d => (d.route? name).bind (·.path?)) own ≠ none := fun none => h (both none)
    simp [Option.or_eq_none_iff, h, path]

end Routes

/-! ## Bindings and rules -/

section Fields

variable {records : Records} {name : PropertyKey} {own : List Decorator} {up : Records}

def bindingOf (name : PropertyKey) (bindings : OrderedMap PropertyKey BindingRecord) : BindingRecord :=
  (bindings.get name).getD {}

def bindingAt (records : Records) (name : PropertyKey) : BindingRecord :=
  bindingOf name ((records .dtoFieldBinding).getD (Entry.empty .dtoFieldBinding))

theorem bindingOf_update (d : Decorator) (bindings : OrderedMap PropertyKey BindingRecord) :
    bindingOf name ((updateBindings d).getD id bindings) =
      ((d.binding? name).map (·.apply)).getD id (bindingOf name bindings) := by
  cases d with
  | binding name' decorator =>
    simp only [updateBindings, Decorator.binding?, Option.getD_some, bindingOf, OrderedMap.get_set]
    by_cases same : name' = name
    · simp [same]
    · simp [same, Ne.symm same]
  | controller | version | useGuards | useInterceptors | route | fieldRule | classRule => rfl

theorem bindingAt_extend : bindingAt (fun key => extend own (up key)) name =
    bindingOf name (applyAll (own.filterMap updateBindings) ((up .dtoFieldBinding).getD (Entry.empty .dtoFieldBinding))) :=
  congrArg (bindingOf name) (extend_getD own (up .dtoFieldBinding))

theorem binding_field {β : Type} (field : BindingRecord → β) {declares : BindingDecorator → Option β}
    (law : ∀ d r, field (BindingDecorator.apply d r) = (declares d).getD (field r)) :
    field (bindingAt (fun key => extend own (up key)) name) =
      (declared (fun d => (d.binding? name).bind declares) own).getD (field (bindingAt up name)) := by
  rw [bindingAt_extend]
  refine field_applyAll (fun bindings => field (bindingOf name bindings)) (fun d bindings => ?_) own _
  rw [bindingOf_update]
  cases d.binding? name with
  | none => rfl
  | some decorator => exact law decorator _

theorem source_extend : (bindingAt (fun key => extend own (up key)) name).source =
    (declared (fun d => (d.binding? name).bind (·.source?)) own).or (bindingAt up name).source := by
  rw [bindingAt_extend]
  refine option_applyAll (fun bindings => (bindingOf name bindings).source) (fun d bindings => ?_) own _
  rw [bindingOf_update]
  cases d.binding? name with
  | none => rfl
  | some decorator => cases decorator <;> rfl

theorem find?_bindings : find? (getDtoBindingSchema records) name =
    (bindingAt records name).source.map fun source =>
      ⟨(bindingAt records name).converter, (bindingAt records name).key, (bindingAt records name).optional, source⟩ := by
  unfold find? getDtoBindingSchema bindingAt bindingOf
  cases records .dtoFieldBinding with
  | none => rfl
  | some bindings =>
    have found := OrderedMap.find_filterMap bindingEntry (fun entry e h => by
      obtain ⟨source, -, rfl⟩ := Option.map_eq_some_iff.mp h
      rfl) (OrderedMap.entries bindings) (OrderedMap.distinct bindings) name
    simp only [Option.getD_some, OrderedMap.get]
    rw [found]
    cases OrderedMap.find name (OrderedMap.entries bindings) with
    | none => rfl
    | some record =>
      simp only [bindingEntry, Option.bind_some, Option.getD_some]
      cases record.source <;> rfl

theorem binding_single {β : Type} {field : BindingMetadata → β} (at_record : BindingRecord → β)
    {declares : BindingDecorator → Option β}
    (reads : ∀ records m, find? (getDtoBindingSchema records) name = some m → field m = at_record (bindingAt records name))
    (law : ∀ d r, at_record (BindingDecorator.apply d r) = (declares d).getD (at_record r)) :
    Field field (declared (fun d => (d.binding? name).bind declares) own) (find? (getDtoBindingSchema up) name)
      (find? (getDtoBindingSchema fun key => extend own (up key)) name) := by
  intro m hm
  rw [reads _ _ hm, binding_field at_record law]
  refine ⟨fun v hv => by rw [hv]; rfl, fun none above habove => ?_⟩
  rw [none, reads _ _ habove]
  rfl

theorem readsBinding {m : BindingMetadata} (h : find? (getDtoBindingSchema records) name = some m) :
    (bindingAt records name).source = some m.source ∧ m.key = (bindingAt records name).key ∧
      m.optional = (bindingAt records name).optional ∧ m.converter = (bindingAt records name).converter := by
  rw [find?_bindings] at h
  obtain ⟨source, e, rfl⟩ := Option.map_eq_some_iff.mp h
  exact ⟨e, rfl, rfl, rfl⟩

theorem binding_source : Field (·.source) (declared (fun d => (d.binding? name).bind (·.source?)) own)
    (find? (getDtoBindingSchema up) name) (find? (getDtoBindingSchema fun key => extend own (up key)) name) := by
  intro m hm
  have value := (readsBinding hm).1
  rw [source_extend] at value
  refine ⟨fun v hv => ?_, fun none above habove => ?_⟩
  · rw [hv] at value
    exact (Option.some.inj value).symm
  · rw [none, Option.none_or, (readsBinding habove).1] at value
    exact (Option.some.inj value).symm

theorem binding_kept (h : find? (getDtoBindingSchema up) name ≠ none ∨
    declared (fun d => (d.binding? name).bind (·.source?)) own ≠ none) :
    find? (getDtoBindingSchema fun key => extend own (up key)) name ≠ none := by
  simp only [find?_bindings, ne_eq, Option.map_eq_none_iff] at h ⊢
  rw [source_extend, Option.or_eq_none_iff]
  rintro ⟨nothing, nor⟩
  exact h.elim (fun above => above nor) fun own => own nothing

def rulesOf (name : PropertyKey) (rules : OrderedMap PropertyKey (List Reference)) : List Reference :=
  (rules.get name).getD []

theorem find?_fieldRules : (find? (getDtoValidationSchema records) name).getD [] =
    rulesOf name ((records .dtoFieldValidation).getD (Entry.empty .dtoFieldValidation)) := by
  unfold find? getDtoValidationSchema rulesOf
  cases records .dtoFieldValidation with
  | none => rfl
  | some rules =>
    have found := OrderedMap.find_filterMap
      (Option.guard fun entry : PropertyKey × List Reference => decide (entry.2.length ≠ 0))
      (fun entry e h => congrArg Prod.fst (Option.guard_eq_some_iff.mp h).1.symm) (OrderedMap.entries rules)
      (OrderedMap.distinct rules) name
    rw [List.filterMap_eq_filter] at found
    simp only [Option.getD_some, OrderedMap.get]
    rw [found]
    cases OrderedMap.find name (OrderedMap.entries rules) with
    | none => rfl
    | some list => cases list <;> rfl

theorem fieldRules_kept : (find? (getDtoValidationSchema fun key => extend own (up key)) name).getD [] =
    (find? (getDtoValidationSchema up) name).getD [] ++ own.flatMap (·.fieldRules name) := by
  rw [find?_fieldRules, find?_fieldRules, extend_getD]
  refine list_applyAll (rulesOf name) (fun d rules => ?_) own _
  change rulesOf name ((updateFieldRules d).getD id rules) = _
  cases d with
  | fieldRule name' rule =>
    simp only [updateFieldRules, Decorator.fieldRules, Option.getD_some, rulesOf, OrderedMap.get_set]
    by_cases same : name' = name
    · simp [same]
    · simp [same, Ne.symm same]
  | controller | version | useGuards | useInterceptors | route | binding | classRule =>
    simp [updateFieldRules, Decorator.fieldRules]

theorem classRules_kept : getClassValidationRules (fun key => extend own (up key)) =
    getClassValidationRules up ++ own.flatMap (·.classRules) := by
  unfold getClassValidationRules
  refine (extend_getD own (up .classValidation)).trans (list_applyAll id (fun d rules => ?_) own _)
  change (updateClassRules d).getD id rules = _
  cases d <;> simp [updateClassRules, Decorator.classRules]

theorem getRouteProducesMetadata_eq : getRouteProducesMetadata records name = (routeAt records name).produces := by
  unfold getRouteProducesMetadata getRouteRecord routeAt routeOf
  cases records .route with
  | none => rfl
  | some routes =>
    simp only [Option.bind_some, Option.getD_some]
    cases OrderedMap.get routes name <;> rfl

theorem produces_kept : getRouteProducesMetadata (fun key => extend own (up key)) name =
    (declared (fun d => (d.route? name).bind (·.produces?)) own).or (getRouteProducesMetadata up name) := by
  rw [getRouteProducesMetadata_eq, getRouteProducesMetadata_eq]
  refine route_option (·.produces) fun d r => ?_
  cases d <;> rfl

end Fields

/-- Own declarations over what is inherited give results that keep both. -/
theorem keeps_extend (own : List Decorator) (up : Records) :
    Keeps own (results up) (results fun key => extend own (up key)) where
  controller := controller_kept
  basePath := controller_field (fun r => r.basePath.getD []) (fun _ _ h => (getControllerMetadata_some h).1)
    (fun d r => by cases d <;> rfl)
  version := controller_field (·.version) (fun _ _ h => (getControllerMetadata_some h).2.1) (fun d r => by cases d <;> rfl)
  guards := controller_entries (fun r => r.guards.getD [])
    (fun _ _ h x => by rw [(getControllerMetadata_some h).2.2.1]; exact mem_mergeStored)
    (fun d r x => by cases d <;> simp [updateController, Decorator.guards, mem_mergeUnique])
  interceptors := controller_entries (fun r => r.interceptors.getD [])
    (fun _ _ h x => by rw [(getControllerMetadata_some h).2.2.2]; exact mem_mergeStored)
    (fun d r x => by cases d <;> simp [updateController, Decorator.interceptors, mem_mergeUnique])
  route _ := route_kept
  routeMethod _ := route_required (·.method) (fun _ _ h => h.method) method_law
  routePath _ := route_required (·.path) (fun _ _ h => h.path) path_law
  routeRequest _ := route_single (·.request) (fun _ _ h => h.request) (fun d r => by cases d <;> rfl)
  routeSuccessStatus _ := route_single (·.successStatus) (fun _ _ h => h.successStatus) (fun d r => by cases d <;> rfl)
  routeVersion _ := route_single (·.version) (fun _ _ h => h.version) (fun d r => by cases d <;> rfl)
  routeRedirect _ := route_single (·.redirect) (fun _ _ h => h.redirect) (fun d r => by cases d <;> rfl)
  routeHeaders _ := route_entries (fun r => r.headers.getD []) (fun _ _ h x => by rw [h.headers])
    (fun d r x => by cases d <;> simp [RouteDecorator.apply, RouteDecorator.headers])
  routeGuards _ := route_entries (fun r => r.guards.getD []) (fun _ _ h x => by rw [h.guards]; exact mem_mergeStored)
    (fun d r x => by cases d <;> simp [RouteDecorator.apply, RouteDecorator.guards, mem_mergeUnique])
  routeInterceptors _ := route_entries (fun r => r.interceptors.getD [])
    (fun _ _ h x => by rw [h.interceptors]; exact mem_mergeStored)
    (fun d r x => by cases d <;> simp [RouteDecorator.apply, RouteDecorator.interceptors, mem_mergeUnique])
  produces _ := produces_kept
  binding _ := binding_kept
  bindingSource _ := binding_source
  bindingKey _ := binding_single (·.key) (fun _ _ h => (readsBinding h).2.1) (fun d r => by cases d <;> rfl)
  bindingOptional _ := binding_single (·.optional) (fun _ _ h => (readsBinding h).2.2.1) (fun d r => by cases d <;> rfl)
  bindingConverter _ := binding_single (·.converter) (fun _ _ h => (readsBinding h).2.2.2) (fun d r => by cases d <;> rfl)
  fieldRules _ := fieldRules_kept
  classRules := classRules_kept

end Fluo.Metadata
