import Fluo.Lib.Checks
import Fluo.Lib.JsString
import Fluo.Lib.OrderedMap
import Fluo.Lib.PostOrder

/-!
# The platform component registry

The checks of the component graph and the order in which components start.
Components are ordered exactly when the graph has no cycle, each one behind
what it depends on.
-/

namespace Fluo.Runtime

open Js Search

structure RegisteredPlatformComponent where
  id : JsString
  dependencies : List JsString
  deriving DecidableEq

/-- `InvariantError`s of the registry, with the data of their messages. -/
inductive PlatformGraphError where
  | emptyId
  | duplicateId (id : JsString)
  | unknownDependency (id dependency : JsString)
  | selfDependency (id : JsString)
  | dependencyCycle (id : JsString)
  | missingRegistration (id : JsString)
  deriving DecidableEq

namespace Platform

def ids (components : List RegisteredPlatformComponent) : List JsString := components.map (·.id)

def collectIds : List JsString → List RegisteredPlatformComponent → Except PlatformGraphError (List JsString)
  | seen, [] => .ok seen
  | seen, registration :: rest =>
    if registration.id = [] ∨ (trim registration.id).length = 0 then .error .emptyId
    else if registration.id ∈ seen then .error (.duplicateId registration.id)
    else collectIds (registration.id :: seen) rest

def assertDependency (known : List JsString) (id dependency : JsString) : Except PlatformGraphError Unit :=
  if dependency ∉ known then .error (.unknownDependency id dependency)
  else if dependency = id then .error (.selfDependency id)
  else .ok ()

def assertValidPlatformComponentGraph (components : List RegisteredPlatformComponent) :
    Except PlatformGraphError Unit := do
  let known ← collectIds [] components
  components.forM fun registration => registration.dependencies.forM (assertDependency known registration.id)

def byId (components : List RegisteredPlatformComponent) : OrderedMap JsString RegisteredPlatformComponent :=
  components.foldl (fun registered registration => registered.set registration.id registration) OrderedMap.empty

structure Ordering where
  visited : List JsString
  ordered : List RegisteredPlatformComponent

/-- `fuel` bounds the depth: an id on the path is registered and is there once. -/
def visit (registered : OrderedMap JsString RegisteredPlatformComponent) :
    Nat → List JsString → Ordering → JsString → Except PlatformGraphError Ordering
  | 0, _, _, id => .error (.dependencyCycle id)
  | fuel + 1, visiting, st, id =>
    if id ∈ st.visited then .ok st
    else if id ∈ visiting then .error (.dependencyCycle id)
    else
      match registered.get id with
      | none => .error (.missingRegistration id)
      | some registration => do
        let st ← registration.dependencies.foldlM (visit registered fuel (id :: visiting)) st
        .ok ⟨st.visited ++ [id], st.ordered ++ [registration]⟩

def orderPlatformComponents (components : List RegisteredPlatformComponent) :
    Except PlatformGraphError (List RegisteredPlatformComponent) := do
  let st ← (ids components).foldlM (visit (byId components) (components.length + 1) []) ⟨[], []⟩
  return st.ordered

/-! ## The graph -/

variable {components : List RegisteredPlatformComponent}

def dependsOn (components : List RegisteredPlatformComponent) (id dependency : JsString) : Prop :=
  ∃ registration ∈ components, registration.id = id ∧ dependency ∈ registration.dependencies

structure WellFormed (components : List RegisteredPlatformComponent) : Prop where
  named : ∀ registration ∈ components, trim registration.id ≠ []
  distinct : (ids components).Nodup
  known : ∀ id dependency, dependsOn components id dependency → dependency ∈ ids components
  loopless : ∀ id, ¬ dependsOn components id id

theorem collectIds_ok {seen known : List JsString} (components : List RegisteredPlatformComponent)
    (distinct : seen.Nodup) :
    collectIds seen components = .ok known ↔
      (∀ registration ∈ components, trim registration.id ≠ []) ∧ ((ids components).reverse ++ seen).Nodup ∧
        known = (ids components).reverse ++ seen := by
  induction components generalizing seen with
  | nil =>
    simp only [collectIds, Except.ok.injEq, ids, List.map_nil, List.reverse_nil, List.nil_append]
    exact ⟨fun h => ⟨by simp, distinct, h.symm⟩, fun h => h.2.2.symm⟩
  | cons registration rest ih =>
    unfold collectIds
    split
    · next empty =>
      refine iff_of_false (by simp) fun h => h.1 registration List.mem_cons_self ?_
      rcases empty with empty | empty
      · rw [empty, trim_nil]
      · exact List.length_eq_zero_iff.mp empty
    next named =>
    split
    · next twice =>
      refine iff_of_false (by simp) fun h => ?_
      have apart := (List.nodup_append.mp h.2.1).2.2 registration.id (by simp [ids])
      exact apart _ twice rfl
    next fresh =>
    have nonempty : trim registration.id ≠ [] := fun h => named (Or.inr (by simp [h]))
    rw [ih (List.nodup_cons.mpr ⟨fresh, distinct⟩)]
    simp [ids, nonempty]

theorem assertDependency_ok {known : List JsString} {id dependency : JsString} :
    assertDependency known id dependency = .ok () ↔ dependency ∈ known ∧ dependency ≠ id := by
  unfold assertDependency
  split
  · next unknown => simp [unknown]
  · next known => split <;> simp_all

theorem assertValidPlatformComponentGraph_ok :
    assertValidPlatformComponentGraph components = .ok () ↔ WellFormed components := by
  unfold assertValidPlatformComponentGraph
  simp only [bind_eq_ok, forM_eq_ok, assertDependency_ok, collectIds_ok components List.nodup_nil]
  simp only [List.append_nil, List.nodup_reverse]
  constructor
  · rintro ⟨known, ⟨named, distinct, rfl⟩, checked⟩
    refine ⟨named, distinct, ?_, ?_⟩
    · rintro id dependency ⟨registration, mem, rfl, hd⟩
      exact List.mem_reverse.mp (checked registration mem dependency hd).1
    · rintro id ⟨registration, mem, rfl, hd⟩
      exact (checked registration mem _ hd).2 rfl
  · intro h
    refine ⟨_, ⟨h.named, h.distinct, rfl⟩, fun registration mem dependency hd => ?_⟩
    have edge : dependsOn components registration.id dependency := ⟨registration, mem, rfl, hd⟩
    exact ⟨List.mem_reverse.mpr (h.known _ _ edge), fun e => h.loopless _ (e ▸ edge)⟩

theorem mem_of_byId_get {id : JsString} {registration : RegisteredPlatformComponent}
    (h : (byId components).get id = some registration) : registration ∈ components ∧ registration.id = id := by
  induction components using List.reverseRecOn with
  | nil => cases h
  | append_singleton l last ih =>
    rw [byId, List.foldl_append] at h
    change ((byId l).set last.id last).get id = _ at h
    rw [OrderedMap.get_set] at h
    split at h
    · next e =>
      cases h
      exact ⟨by simp, e.symm⟩
    · have := ih h
      exact ⟨List.mem_append_left _ this.1, this.2⟩

theorem byId_get (distinct : (ids components).Nodup) {registration : RegisteredPlatformComponent}
    (mem : registration ∈ components) : (byId components).get registration.id = some registration := by
  induction components using List.reverseRecOn with
  | nil => cases mem
  | append_singleton l last ih =>
    rw [ids, List.map_append] at distinct
    obtain ⟨before, -, apart⟩ := List.nodup_append.mp distinct
    rw [byId, List.foldl_append]
    change ((byId l).set last.id last).get _ = _
    rw [OrderedMap.get_set]
    rcases List.mem_append.mp mem with mem | mem
    · rw [if_neg (apart _ (List.mem_map_of_mem mem) _ (by simp))]
      exact ih before mem
    · obtain rfl : registration = last := by simpa using mem
      rw [if_pos rfl]

/-- What a registered id depends on, nothing for another id. -/
def dependencies (components : List RegisteredPlatformComponent) (id : JsString) : List JsString :=
  (((byId components).get id).map (·.dependencies)).getD []

theorem mem_dependencies (distinct : (ids components).Nodup) {id dependency : JsString} :
    dependency ∈ dependencies components id ↔ dependsOn components id dependency := by
  unfold dependencies
  constructor
  · intro h
    cases e : (byId components).get id with
    | none => simp [e] at h
    | some registration =>
      obtain ⟨mem, rfl⟩ := mem_of_byId_get e
      exact ⟨registration, mem, rfl, by simpa [e] using h⟩
  · rintro ⟨registration, mem, rfl, h⟩
    rw [byId_get distinct mem]
    exact h

/-! ## The order -/

def Ordering.Tidy (components : List RegisteredPlatformComponent) (st : Ordering) : Prop :=
  st.visited = ids st.ordered ∧ ∀ registration ∈ st.ordered, registration ∈ components

/-- The ordering lists the ids that the search lists, and rejects where the
search finds nothing. -/
def Agrees (components : List RegisteredPlatformComponent) (ordering : Except PlatformGraphError Ordering)
    (found : Option (List JsString)) : Prop :=
  (∃ st, ordering = .ok st ∧ st.Tidy components ∧ found = some st.visited) ∨
    (∃ e, ordering = .error e) ∧ found = none

theorem agrees_foldlM {fuel : Nat} {visiting : List JsString}
    (each : ∀ (st : Ordering) (id : JsString), st.Tidy components → id ∈ ids components →
      Agrees components (visit (byId components) fuel visiting st id)
        (depthFirst (dependencies components) fuel visiting st.visited id))
    (l : List JsString) (st : Ordering) (sub : ∀ id ∈ l, id ∈ ids components) (tidy : st.Tidy components) :
    Agrees components (l.foldlM (visit (byId components) fuel visiting) st)
      (l.foldlM (depthFirst (dependencies components) fuel visiting) st.visited) := by
  induction l generalizing st with
  | nil => exact Or.inl ⟨st, rfl, tidy, rfl⟩
  | cons id rest ih =>
    simp only [List.foldlM_cons]
    rcases each st id tidy (sub id List.mem_cons_self) with ⟨mid, h, tidy, h'⟩ | ⟨⟨e, h⟩, h'⟩
    · rw [h, h']
      exact ih mid (fun d hd => sub d (List.mem_cons_of_mem _ hd)) tidy
    · rw [h, h']
      exact Or.inr ⟨⟨e, rfl⟩, rfl⟩

theorem visit_agrees (wf : WellFormed components) (fuel : Nat) (visiting : List JsString) (st : Ordering)
    (id : JsString) (tidy : st.Tidy components) (mem : id ∈ ids components) :
    Agrees components (visit (byId components) fuel visiting st id)
      (depthFirst (dependencies components) fuel visiting st.visited id) := by
  induction fuel generalizing visiting st id with
  | zero => exact Or.inr ⟨⟨_, rfl⟩, rfl⟩
  | succ fuel ih =>
    unfold visit depthFirst
    by_cases done : id ∈ st.visited
    · simp only [done, ↓reduceIte]
      exact Or.inl ⟨st, rfl, tidy, rfl⟩
    by_cases again : id ∈ visiting
    · simp only [done, again, ↓reduceIte]
      exact Or.inr ⟨⟨_, rfl⟩, rfl⟩
    obtain ⟨registration, inside, rfl⟩ := List.mem_map.mp mem
    have found := byId_get wf.distinct inside
    have deps : dependencies components registration.id = registration.dependencies := by simp [dependencies, found]
    simp only [done, again, ↓reduceIte, found, deps]
    have known : ∀ d ∈ registration.dependencies, d ∈ ids components :=
      fun d hd => wf.known registration.id d ⟨registration, inside, rfl, hd⟩
    rcases agrees_foldlM (ih (registration.id :: visiting)) registration.dependencies st known tidy with
      ⟨mid, h, tidy, h'⟩ | ⟨⟨e, h⟩, h'⟩
    · rw [h, h']
      refine Or.inl ⟨_, rfl, ⟨by simp [ids, tidy.1], fun other hother => ?_⟩, rfl⟩
      rcases List.mem_append.mp hother with hother | hother
      · exact tidy.2 other hother
      · obtain rfl : other = registration := by simpa using hother
        exact inside
    · rw [h, h']
      exact Or.inr ⟨⟨e, rfl⟩, rfl⟩

/-- A list of all components, each one behind what it depends on. -/
structure StartOrder (components ordered : List RegisteredPlatformComponent) : Prop where
  first : SuccessorsFirst (dependencies components) (ids ordered)
  distinct : (ids ordered).Nodup
  mem : ∀ registration, registration ∈ ordered ↔ registration ∈ components

def Acyclic (components : List RegisteredPlatformComponent) : Prop :=
  ∀ id, ¬ Relation.TransGen (dependsOn components) id id

theorem acyclic_iff (distinct : (ids components).Nodup) :
    Acyclic components ↔ ∀ id, ¬ Relation.TransGen (fun x y => y ∈ dependencies components x) id id := by
  have same : dependsOn components = fun x y => y ∈ dependencies components x := by
    funext x y
    exact propext (mem_dependencies distinct).symm
  rw [Acyclic, same]

theorem orderPlatformComponents_ok (wf : WellFormed components) {ordered : List RegisteredPlatformComponent}
    (h : orderPlatformComponents components = .ok ordered) : StartOrder components ordered := by
  obtain ⟨st, ran, e⟩ := bind_eq_ok.mp h
  cases e
  rcases agrees_foldlM (visit_agrees wf (components.length + 1) []) (ids components) ⟨[], []⟩ (fun _ h => h)
    ⟨rfl, by simp⟩ with ⟨st', h', tidy, found⟩ | ⟨⟨e, h'⟩, -⟩
  · obtain rfl : st = st' := Except.ok.inj (ran.symm.trans h')
    have listed := depthFirst_foldlM (depthFirst_sound (components.length + 1)) (ids components) .nil List.nodup_nil found
    rw [tidy.1] at listed
    refine ⟨listed.first, listed.nodup, fun registration => ⟨tidy.2 registration, fun mem => ?_⟩⟩
    obtain ⟨other, hother, e⟩ := List.mem_map.mp (listed.listed registration.id (List.mem_map_of_mem mem))
    have one := byId_get wf.distinct (tidy.2 other hother)
    rw [e, byId_get wf.distinct mem] at one
    exact Option.some.inj one ▸ hother
  · rw [ran] at h'
    cases h'

theorem acyclic_of_startOrder (wf : WellFormed components) {ordered : List RegisteredPlatformComponent}
    (h : StartOrder components ordered) : Acyclic components := by
  refine (acyclic_iff wf.distinct).mpr fun id cycle => ?_
  have mem : id ∈ ids ordered := by
    obtain ⟨d, hd, -⟩ := Relation.TransGen.head'_iff.mp cycle
    obtain ⟨registration, inside, e, -⟩ := (mem_dependencies wf.distinct).mp hd
    exact e ▸ List.mem_map_of_mem ((h.mem registration).mpr inside)
  exact h.first.acyclicFrom h.distinct mem id .refl cycle

/-! ## What is reported -/

theorem StartOrder.before (wf : WellFormed components) {ordered : List RegisteredPlatformComponent}
    (h : StartOrder components ordered) {before after : List RegisteredPlatformComponent}
    {registration : RegisteredPlatformComponent} (split : ordered = before ++ registration :: after) :
    ∀ dependency ∈ registration.dependencies, dependency ∈ ids before := by
  intro dependency needed
  have inside : registration ∈ components := (h.mem registration).mp (by simp [split])
  have edge : dependency ∈ dependencies components registration.id :=
    (mem_dependencies wf.distinct).mpr ⟨registration, inside, rfl, needed⟩
  have first := h.first
  rw [split, ids, List.map_append, List.map_cons, List.append_cons] at first
  have earlier : dependency ∈ ids before ++ [registration.id] :=
    first.of_append.closed (by simp) edge
  rcases List.mem_append.mp earlier with earlier | itself
  · exact earlier
  · obtain rfl := List.mem_singleton.mp itself
    exact absurd ⟨registration, inside, rfl, needed⟩ (wf.loopless registration.id)

/-- The ids being visited: all of them lead to the id that is visited next, and the fuel counts those that may come. -/
structure Trail (components : List RegisteredPlatformComponent) (fuel : Nat) (visiting : List JsString) (id : JsString) :
    Prop where
  leads : ∀ v ∈ visiting, Relation.TransGen (dependsOn components) v id
  distinct : visiting.Nodup
  registered : ∀ v ∈ visiting, v ∈ ids components
  depth : fuel + visiting.length = components.length + 1

theorem foldlM_error {σ α ε : Type} {f : σ → α → Except ε σ} {l : List α} {s : σ} {e : ε}
    (h : l.foldlM f s = .error e) : ∃ a ∈ l, ∃ s', f s' a = .error e := by
  induction l generalizing s with
  | nil => cases h
  | cons a rest ih =>
    rw [List.foldlM_cons] at h
    cases one : f s a with
    | error e' =>
      rw [one] at h
      cases h
      exact ⟨a, List.mem_cons_self, s, one⟩
    | ok mid =>
      rw [one] at h
      obtain ⟨b, mem, found⟩ := ih h
      exact ⟨b, List.mem_cons_of_mem a mem, found⟩

/-- A visit is given up at an id on a cycle, and for nothing else. -/
theorem visit_error (wf : WellFormed components) {fuel : Nat} {visiting : List JsString} {st : Ordering} {id : JsString}
    {e : PlatformGraphError} (trail : Trail components fuel visiting id) (mem : id ∈ ids components)
    (h : visit (byId components) fuel visiting st id = .error e) :
    ∃ v, e = .dependencyCycle v ∧ Relation.TransGen (dependsOn components) v v := by
  induction fuel generalizing visiting st id with
  | zero =>
    -- More distinct ids are visited than there are.
    have many : visiting.length ≤ (ids components).length :=
      (List.subperm_of_subset trail.distinct trail.registered).length_le
    have depth := trail.depth
    rw [ids, List.length_map] at many
    omega
  | succ fuel ih =>
    rw [visit] at h
    split at h
    · cases h
    split at h
    · next again =>
      cases h
      exact ⟨id, rfl, trail.leads id again⟩
    next fresh =>
    obtain ⟨registration, inside, rfl⟩ := List.mem_map.mp mem
    rw [byId_get wf.distinct inside] at h
    dsimp only at h
    cases each : registration.dependencies.foldlM (visit (byId components) fuel (registration.id :: visiting)) st with
    | ok mid =>
      rw [each] at h
      cases h
    | error e' =>
      rw [each] at h
      cases h
      obtain ⟨dependency, needed, st', found⟩ := foldlM_error each
      have edge : dependsOn components registration.id dependency := ⟨registration, inside, rfl, needed⟩
      refine ih ⟨?_, List.nodup_cons.mpr ⟨fresh, trail.distinct⟩, ?_, ?_⟩ (wf.known _ _ edge) found
      · intro v visited
        rcases List.mem_cons.mp visited with rfl | visited
        · exact .single edge
        · exact (trail.leads v visited).tail edge
      · exact List.forall_mem_cons.mpr ⟨List.mem_map_of_mem inside, trail.registered⟩
      · rw [List.length_cons]
        have depth := trail.depth
        omega

/-- Once the checks have passed, either all components come in an order, each one with its dependencies in front of
it, or an id is reported that does depend on itself. -/
theorem components_order_exact (valid : assertValidPlatformComponentGraph components = .ok ()) :
    (∃ ordered, orderPlatformComponents components = .ok ordered ∧ Acyclic components ∧ ordered.Perm components ∧
      ∀ before registration after, ordered = before ++ registration :: after →
        ∀ dependency ∈ registration.dependencies, dependency ∈ ids before) ∨
    ∃ id, orderPlatformComponents components = .error (.dependencyCycle id) ∧
      Relation.TransGen (dependsOn components) id id := by
  have wf := assertValidPlatformComponentGraph_ok.mp valid
  cases h : orderPlatformComponents components with
  | ok ordered =>
    have order := orderPlatformComponents_ok wf h
    have perm : ordered.Perm components :=
      (List.perm_ext_iff_of_nodup order.distinct.of_map wf.distinct.of_map).mpr order.mem
    exact .inl ⟨ordered, rfl, acyclic_of_startOrder wf order, perm, fun _ _ _ split => order.before wf split⟩
  | error e =>
    refine .inr ?_
    unfold orderPlatformComponents at h
    cases each : (ids components).foldlM (visit (byId components) (components.length + 1) []) ⟨[], []⟩ with
    | ok st =>
      rw [each] at h
      cases h
    | error e' =>
      rw [each] at h
      cases h
      obtain ⟨id, mem, st, found⟩ := foldlM_error each
      have trail : Trail components (components.length + 1) [] id :=
        ⟨List.forall_mem_nil _, List.nodup_nil, List.forall_mem_nil _, rfl⟩
      obtain ⟨v, rfl, cycle⟩ := visit_error wf trail mem found
      exact ⟨v, rfl, cycle⟩

/-- A store that waits for a bus that waits for the store. -/
def ring : List RegisteredPlatformComponent :=
  [⟨text "app", [text "store"]⟩, ⟨text "store", [text "bus"]⟩, ⟨text "bus", [text "store"]⟩]

theorem components_order_exact_ring :
    ∃ id, orderPlatformComponents ring = .error (.dependencyCycle id) ∧ Relation.TransGen (dependsOn ring) id id := by
  refine (components_order_exact (by decide)).resolve_left ?_
  rintro ⟨ordered, ok, -⟩
  have stopped : orderPlatformComponents ring = .error (.dependencyCycle (text "store")) := by decide
  rw [stopped] at ok
  cases ok

end Platform

end Fluo.Runtime
